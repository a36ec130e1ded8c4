/-
Module: Gvds.Common.ConfigureSettings
Layer: Common
Purpose: The settings of a node (config/ConfigureSettings.h, .cc, config/default_config.hpp): the
  walk along a dotted path, get and get_list, add, the defaults, and the choice of the file.
Imports: Gvds.Lib.SettingsTree
Trusted boundary: libconfig: a name begins with a letter or an asterisk, and goes on with these,
  digits, hyphens and underscores; lookupValue takes a value of the very type that is asked for.
  A file parses to a tree of settings or not at all. An exception of libconfig and a failed ASSERT
  in add end the process
Main exports: Scalar, Value, ConfigureSettings, ConfigureSettings.get, ConfigureSettings.get_list,
  ConfigureSettings.add, default_config, init_config
-/
import Gvds.Lib.SettingsTree

namespace Gvds.Config

open SettingsTree (Tree Node)

abbrev Name := List Char

/-- The types of libconfig that `ConfigTypeConvert` knows. -/
inductive TypeCode where
  | typeInt
  | typeInt64
  | typeFloat
  | typeBoolean
  | typeString
deriving DecidableEq

/-- A value of one of them; a float as the number `m * 10 ^ e` of its text. -/
inductive Scalar where
  | int (n : Int32)
  | int64 (n : Int64)
  | float (m e : Int)
  | bool (b : Bool)
  | string (s : Name)
deriving DecidableEq

def Scalar.code : Scalar → TypeCode
  | .int _ => .typeInt
  | .int64 _ => .typeInt64
  | .float _ _ => .typeFloat
  | .bool _ => .typeBoolean
  | .string _ => .typeString

/-- What a setting that is no group holds. An element of a list need not be a scalar. -/
inductive Value where
  | scalar (s : Scalar)
  | list (elements : List (Option Scalar))
  | array (elements : List Scalar)
deriving DecidableEq

abbrev Settings := Tree Name Value

/-- The names of libconfig. -/
def validName : Name → Bool
  | [] => false
  | c :: cs =>
      (c.isAlpha || c == '*') && cs.all fun c => c.isAlphanum || c == '*' || c == '-' || c == '_'

/-- The tokens that the loop of `_push_forward` and `_build_group` cuts off a path, and what it
leaves of it. -/
def cutTokens : Name → List Name × Name
  | [] => ([], [])
  | c :: cs =>
      let r := cutTokens cs
      if c = '.' then ([] :: r.1, r.2)
      else
        match r.1 with
        | [] => ([], c :: r.2)
        | token :: tokens => ((c :: token) :: tokens, r.2)

/-- The place of a path in the tree. -/
def key (path : Name) : List Name := (cutTokens path).1 ++ [(cutTokens path).2]

/-- The loop of `_push_forward`. -/
def pushForward (t : Settings) (cur : List Name) : List Name → Option (List Name)
  | [] => some cur
  | token :: tokens =>
      match t.node (cur ++ [token]) with
      | some .group => pushForward t (cur ++ [token]) tokens
      | _ => none

/-- `libconfig::Setting::lookupValue` of a value that was found. -/
def valueOf (code : TypeCode) : Option (Node Value) → Option Scalar
  | some (.leaf (.scalar s)) => if s.code = code then some s else none
  | _ => none

structure ConfigureSettings where
  baseCfg : Settings
  vaild : Bool

namespace ConfigureSettings

/-- `get`. -/
def get (cfg : ConfigureSettings) (code : TypeCode) (path : Name) : Option Scalar :=
  if cfg.vaild then
    let (tokens, last) := cutTokens path
    match pushForward cfg.baseCfg [] tokens with
    | some cur => valueOf code (cfg.baseCfg.node (cur ++ [last]))
    | none => none
  else none

/-- `get_list`: the elements of the type that is asked for. -/
def get_list (cfg : ConfigureSettings) (code : TypeCode) (path : Name) : Option (List Scalar) :=
  if cfg.vaild then
    let (tokens, last) := cutTokens path
    match pushForward cfg.baseCfg [] tokens with
    | some cur =>
        match cfg.baseCfg.node (cur ++ [last]) with
        | some (.leaf (.list elements)) =>
            some (elements.filterMap fun e => e.filter fun s => s.code = code)
        | _ => none
    | none => none
  else none

/-- `add`; none if it does not return. -/
def add (cfg : ConfigureSettings) (path : Name) (value : Value) :
    Option (ConfigureSettings × Bool) :=
  if cfg.vaild then
    let (tokens, last) := cutTokens path
    (SettingsTree.add validName cfg.baseCfg tokens last value).map fun r =>
      ({ cfg with baseCfg := r.1 }, r.2)
  else some (cfg, false)

end ConfigureSettings

/-! ### The defaults -/

private def int (n : Int32) : Value := .scalar (.int n)

private def bool (b : Bool) : Value := .scalar (.bool b)

private def string (s : String) : Value := .scalar (.string s.toList)

/-- The calls of `add` in `default_config`. -/
def defaults : List (String × Value) := [
  ("user.age", int 1),
  ("user.hello.world", bool false),
  ("user.world", string "any string"),
  ("float", .scalar (.float 314 (-2))),
  ("list", .list [some (.int 1), some (.int 2), some (.int 3)]),
  ("ip", string "127.0.0.1"),
  ("manager_addr", string "127.0.0.1:9090"),
  ("ioproxy.cid", string "1"),
  ("log.path", string "/var/log/gvds.log"),
  ("log.level", int 10),
  ("ioproxy.rpc_port", int 9092),
  ("ioproxy.rpc_workers", int 6),
  ("ioproxy.rpc_timeout", int 3000),
  ("ioproxy.rpc_retry", int 3),
  ("manager.couchbase_addr", string "127.0.0.1"),
  ("manager.couchbase_user", string "dev"),
  ("manager.couchbase_passwd", string "buaaica"),
  ("client.mountpoint", string "/mnt/gvds"),
  ("client.foreground", bool true),
  ("client.debug", bool false),
  ("client.multithread", bool true),
  ("client.auto_unmount", bool true),
  ("client.use_udt", bool false),
  ("ioproxy.scher", int 6),
  ("ioproxy.data_port", int 9095),
  ("ioproxy.data_buffer", int 10240000),
  ("ioproxy.data_conn", int 50),
  ("client.data_port_begin", int 9096),
  ("client.data_port_end", int 9150),
  ("client.data_buffer", int 10240000),
  ("manager.port", int 9090),
  ("manager.thread_num", int 6),
  ("manager.id", string "1")]

/-- Calls of `add` one after the other, with what each of them returned. -/
def addAll (cfg : ConfigureSettings) :
    List (Name × Value) → Option (ConfigureSettings × List (Name × Value × Bool))
  | [] => some (cfg, [])
  | (path, value) :: calls =>
      (cfg.add path value).bind fun r =>
        (addAll r.1 calls).map fun rest => (rest.1, (path, value, r.2) :: rest.2)

/-- `default_config`. -/
def default_config (cfg : ConfigureSettings) : Option ConfigureSettings :=
  (addAll cfg (defaults.map fun d => (d.1.toList, d.2))).map Prod.fst

/-! ### The file -/

/-- How `init_config` ends. -/
inductive Started where
  | nullptr
  | terminated
  | config (cfg : ConfigureSettings)

end Gvds.Config
