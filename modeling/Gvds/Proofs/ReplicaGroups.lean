/-
Module: Gvds.Proofs.ReplicaGroups
Layer: Proofs
Purpose: What SpaceReplica does to the groups of replicas: it joins the single space to the group of
  the replicated one. The groups stay cliques of at most six spaces iff each call that is not
  refused joins another space, which has no replicas yet.
Imports: Gvds.Lib.Machine, Gvds.Lib.Cliques, Gvds.Manager.SpaceServer
Trusted boundary: as Gvds.Manager.SpaceServer
Main exports: replicas, replicaStep, replicas_spaceReplica, replica_groups_stay_cliques
-/
import Gvds.Lib.Machine
import Gvds.Lib.Cliques
import Gvds.Manager.SpaceServer

namespace Gvds.Manager

open Cliques

/-! ### The relation of replicas -/

/-- The replicas of a space. -/
def replicas (db : Database) (id : String) : List String :=
  ((db.space id).map Space.replica_spaces).getD []

/-- The spaces that have a document are the same. -/
def SameSpaces (db db' : Database) : Prop :=
  ∀ id, (db'.space id).isSome = (db.space id).isSome

variable {ask : QueryService} {db : Database}

/-- The documents after `arr_insert_uniq`. -/
theorem after_insertReplica (id value : String) :
    (server ask).after (.insertReplica id value) db =
      Function.update db (.space id) ((db.space id).map fun sp => sp.insertReplica value) := rfl

/-- Every space but the one has the document it had. -/
theorem space_insertReplica (id value u : String) :
    Database.space ((server ask).after (.insertReplica id value) db) u =
      if u = id then (db.space id).map fun sp => sp.insertReplica value else db.space u := by
  rw [after_insertReplica]
  unfold Database.space
  by_cases hu : u = id
  · subst hu
    rw [Function.update_self, if_pos rfl]
  · rw [Function.update_of_ne (by simpa using hu), if_neg hu]

/-- `arr_insert_uniq` links a space to a replica. -/
theorem replicas_insertReplica {id : String} (hid : (db.space id).isSome) (value : String) :
    replicas ((server ask).after (.insertReplica id value) db) = link (replicas db) id value := by
  obtain ⟨sp, hsp⟩ := Option.isSome_iff_exists.mp hid
  funext u
  unfold link
  by_cases hu : u = id
  · subst hu
    have hrow : replicas db u = sp.replica_spaces := by
      rw [replicas, hsp]
      rfl
    rw [Function.update_self, hrow, replicas, space_insertReplica, if_pos rfl, hsp]
    unfold Space.insertReplica
    simp only [Option.map_some, Option.getD_some]
    split <;> rfl
  · rw [Function.update_of_ne hu, replicas, space_insertReplica, if_neg hu]
    rfl

variable (ask) (db) in
/-- `arr_insert_uniq` makes and removes no document. -/
theorem sameSpaces_insertReplica (id value : String) :
    SameSpaces db ((server ask).after (.insertReplica id value) db) := by
  intro u
  rw [space_insertReplica]
  split
  · rename_i hu
    rw [hu, Option.isSome_map]
  · rfl

/-! ### One call -/

variable (ask) in
/-- The loop over a group links the single space with each member. -/
theorem exec_insertReplicas {single : String} {group : List String}
    (hsingle : (db.space single).isSome) (hgroup : ∀ it ∈ group, (db.space it).isSome) :
    replicas ((server ask).exec (insertReplicas single group) db).2 =
        linkAll single group (replicas db) ∧
      SameSpaces db ((server ask).exec (insertReplicas single group) db).2 := by
  induction group generalizing db with
  | nil => exact ⟨rfl, fun _ => rfl⟩
  | cons it group ih =>
      simp only [insertReplicas, Server.exec_bind, Server.exec_perform, linkAll]
      have hone : SameSpaces db ((server ask).after (.insertReplica it single) db) :=
        sameSpaces_insertReplica ask db it single
      have htwo := sameSpaces_insertReplica ask
        ((server ask).after (.insertReplica it single) db) single it
      have hboth : SameSpaces db ((server ask).after (.insertReplica single it)
          ((server ask).after (.insertReplica it single) db)) := fun u => by
        rw [htwo u, hone u]
      have hrest := ih (by rw [hboth]; exact hsingle)
        (fun x hx => by rw [hboth]; exact hgroup x (List.mem_cons_of_mem it hx))
      rw [replicas_insertReplica (by rw [hone]; exact hsingle),
        replicas_insertReplica (hgroup it List.mem_cons_self)] at hrest
      exact ⟨hrest.1, fun u => by rw [hrest.2 u, hboth u]⟩

variable (ask) in
/-- A call for two spaces whose group's members all have documents joins the single space to the
group, unless that has five replicas. -/
theorem replicas_spaceReplica {a b : String} (ha : (db.space a).isSome) (hb : (db.space b).isSome)
    (hgroup : ∀ it ∈ replicas db a, (db.space it).isSome) :
    replicas ((server ask).exec (spaceReplica a b) db).2 =
        (if 5 ≤ (replicas db a).length then replicas db else join (replicas db) a b) ∧
      SameSpaces db ((server ask).exec (spaceReplica a b) db).2 := by
  obtain ⟨sp, hsp⟩ := Option.isSome_iff_exists.mp ha
  have hget : (server ask).exec (.perform (.getReplicas a)) db = (some (replicas db a), db) := by
    have hanswer : (server ask).answer (.getReplicas a) db = (db.space a).map Space.replica_spaces :=
      rfl
    rw [Server.exec_perform, hanswer, replicas, hsp]
    rfl
  unfold spaceReplica
  rw [Server.exec_bind, hget]
  dsimp only
  split
  · exact ⟨rfl, fun _ => rfl⟩
  · simp only [Server.exec_bind, Server.exec_perform, Server.exec_pure]
    obtain ⟨hloop, hsame⟩ := exec_insertReplicas ask hb hgroup
    generalize (server ask).exec (insertReplicas b (replicas db a)) db = r at hloop hsame ⊢
    have hone := sameSpaces_insertReplica ask r.2 a b
    have htwo := sameSpaces_insertReplica ask
      ((server ask).after (.insertReplica a b) r.2) b a
    rw [replicas_insertReplica (by rw [hone, hsame]; exact hb),
      replicas_insertReplica (by rw [hsame]; exact ha), hloop]
    exact ⟨rfl, fun u => by rw [htwo u, hone u, hsame u]⟩

/-! ### Runs -/

/-- A call of `SpaceReplica` for two spaces that exist. -/
def replicaStep (ask : QueryService) (db : Database) (r : String × String) : Option Database :=
  if (db.space r.1).isSome ∧ (db.space r.2).isSome then
    some ((server ask).exec (spaceReplica r.1 r.2) db).2
  else none

/-- The replicas of every space are spaces, without repetition. -/
structure Proper (db : Database) : Prop where
  known : ∀ a, ∀ b ∈ replicas db a, (db.space b).isSome
  nodup : ∀ a, (replicas db a).Nodup

/-- A call joins a space that has no replicas yet to the group of another, unless it is refused. -/
def JoinsNewcomer (db : Database) (r : String × String) : Prop :=
  (db.space r.1).isSome → (db.space r.2).isSome →
    5 ≤ (replicas db r.1).length ∨ r.1 ≠ r.2 ∧ replicas db r.2 = []

/-- What a call does to the groups. -/
theorem replicas_replicaStep {r : String × String} {db' : Database} (hproper : Proper db)
    (hstep : replicaStep ask db r = some db') :
    (db.space r.1).isSome ∧ (db.space r.2).isSome ∧ SameSpaces db db' ∧
      replicas db' =
        if 5 ≤ (replicas db r.1).length then replicas db else join (replicas db) r.1 r.2 := by
  unfold replicaStep at hstep
  split at hstep
  · rename_i hknown
    cases hstep
    obtain ⟨hreplicas, hsame⟩ :=
      replicas_spaceReplica ask hknown.1 hknown.2 (hproper.known r.1)
    exact ⟨hknown.1, hknown.2, hsame, hreplicas⟩
  · cases hstep

/-- Every call keeps lists of spaces without repetition. -/
theorem proper_replicaStep {r : String × String} {db' : Database} (hproper : Proper db)
    (hstep : replicaStep ask db r = some db') : Proper db' := by
  obtain ⟨ha, hb, hsame, hreplicas⟩ := replicas_replicaStep hproper hstep
  split at hreplicas
  · exact ⟨fun a b hmem => by rw [hsame]; exact hproper.known a b (hreplicas ▸ hmem),
      fun a => hreplicas ▸ hproper.nodup a⟩
  · constructor
    · intro u z hz
      rw [hsame]
      rw [hreplicas] at hz
      rcases mem_join.mp hz with hz | ⟨-, rfl⟩ | ⟨-, hz | rfl⟩
      · exact hproper.known u z hz
      · exact hb
      · exact hproper.known r.1 z hz
      · exact ha
    · intro u
      rw [hreplicas]
      exact nodup_join hproper.nodup r.1 r.2 u

/-- A call keeps cliques iff it joins a newcomer. -/
theorem clique_replicaStep {r : String × String} {db' : Database} (hproper : Proper db)
    (hclique : Clique 5 (replicas db)) (hstep : replicaStep ask db r = some db') :
    Clique 5 (replicas db') ↔ JoinsNewcomer db r := by
  obtain ⟨ha, hb, -, hreplicas⟩ := replicas_replicaStep hproper hstep
  unfold JoinsNewcomer
  rw [hreplicas]
  by_cases hfull : 5 ≤ (replicas db r.1).length
  · simp [hfull, hclique]
  · rw [if_neg hfull, clique_join_iff hclique hproper.nodup (Nat.lt_of_not_le hfull)]
    simp [hfull, ha, hb]

/-- **Replica groups are cliques** in every state of a run of `SpaceReplica` calls for spaces that
exist, from spaces without replicas, iff every call in it that is not refused joins another space,
one that has no replicas yet. -/
theorem replica_groups_stay_cliques (ask : QueryService) {db : Database}
    (hstart : ∀ id, replicas db id = []) (calls : List (String × String)) :
    Machine.Always (replicaStep ask) (fun db => Clique 5 (replicas db)) db calls ↔
      Machine.Guarded (replicaStep ask) JoinsNewcomer db calls := by
  have hempty : ∀ a b, b ∉ replicas db a := by simp [hstart]
  refine Machine.always_iff_guarded (fun _ _ _ => proper_replicaStep)
    (fun _ _ _ => clique_replicaStep) ?_ ?_ ?_
  · intro db r hdisabled ha hb
    simp [replicaStep, ha, hb] at hdisabled
  · exact ⟨fun a b hb => absurd hb (hempty a b), fun a => by rw [hstart a]; exact .nil⟩
  · exact ⟨fun a => hempty a a, fun a b hb => absurd hb (hempty a b),
      fun a b c hb => absurd hb (hempty a b), fun a => by rw [hstart a]; exact Nat.zero_le 5⟩

/-! ### Spaces a, b and c -/

/-- A space with an ID, in use and without replicas. -/
def plainSpace (id : String) : Space where
  spaceID := id
  spaceName := []
  spaceSize := 1
  hostCenterID := "sc"
  storageSrcID := "STOR-1"
  spacePath := id
  hostCenterName := "center"
  storageSrcName := "cluster"
  status := true
  replica_spaces := []

/-- A query service that finds nothing. -/
def noRows : QueryService where
  storages _ _ _ := []
  spaces _ _ _ _ := []
  zones _ _ := some []
  spaces_sound := noSpaces_sound
  zones_sound := noZones_sound

/-- Three spaces. -/
def threeSpaces : Database
  | .space id => if id ∈ ["a", "b", "c"] then some (plainSpace id) else none
  | .storage _ => none
  | .zone _ => none

theorem replicas_threeSpaces (id : String) : replicas threeSpaces id = [] := by
  unfold replicas Database.space threeSpaces
  dsimp only
  split <;> rfl

theorem replica_groups_stay_cliques_threeSpaces :
    Machine.Always (replicaStep noRows) (fun db => Clique 5 (replicas db)) threeSpaces
      [("a", "b"), ("a", "c")] ↔
    Machine.Guarded (replicaStep noRows) JoinsNewcomer threeSpaces [("a", "b"), ("a", "c")] :=
  replica_groups_stay_cliques noRows replicas_threeSpaces _

/-- A space that is joined to itself comes to be its own replica. -/
theorem replica_of_itself :
    ¬ ∀ (ask : QueryService) (db : Database) (calls : List (String × String)),
      (∀ id, replicas db id = []) →
        Machine.Always (replicaStep ask) (fun db => Clique 5 (replicas db)) db calls := by
  intro hall
  have hone := (hall noRows threeSpaces [("a", "a")] replicas_threeSpaces).2 _ rfl
  exact hone.irrefl "a" (by decide)

end Gvds.Manager
