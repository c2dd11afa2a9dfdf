import EventDialects.Proofs.Registry.Publication
import EventDialects.Workspace
import Mathlib.Logic.Function.Basic

/-!
# Workspaces and shared tables

A workspace keeps its tables by value: what is under a name and what a registry holds are copies,
and publishing a table closes both.  A `Catalogue` shares them instead.  That the copies cannot be
told from shared tables rests on the seal: a table is copied into a registry only when it is closed,
and from then on neither copy changes.

* `Mirrors`: the tables under a workspace's names are those at a catalogue's places, and the
  workspace's registry is the one that the catalogue's registry sees.
* `Mirrors.perform`: **one call** is answered alike and keeps this.
* `Mirrors.after`, `registryAt_after`: **every run** keeps it.
-/

namespace EventDialects

/-- The number of tables that a call makes. -/
def Call.makes : Call → Nat
  | .create revision _ _ => if revision.printable then 1 else 0
  | _ => 0

theorem Catalogue.length_perform (c : Catalogue) (call : Call) :
    (c.perform call).2.tables.length = c.tables.length + call.makes := by
  rcases c.perform_cases call with ⟨c', hc', hchanges⟩ | ⟨e, he⟩
  · rw [hc']
    cases hchanges with
    | create title operandBits hr =>
      rw [Call.makes, if_pos (Revision.read_eq_ok.mp hr).1]
      exact List.length_append
    | register _ _ | close _ | publish _ _ _ => exact List.length_set
  · rw [he]
    cases call with
    | create revision title operandBits =>
      cases hprint : revision.printable with
      | true =>
        rw [Catalogue.perform, Revision.read_eq_ok.mpr ⟨hprint, rfl⟩] at he
        cases he
      | false => rw [Call.makes, hprint]; rfl
    | _ => rfl

namespace Workspace

@[simp] theorem item?_assign_of_ne (w : Workspace) {name name' : String} (item : Item)
    (h : name' ≠ name) : (w.assign name item).item? name' = w.item? name' := by
  have hkept : (w.items.filter (·.1 != name)).find? (·.1 == name') =
      w.items.find? (·.1 == name') := by
    rw [List.find?_filter]
    refine congrArg (List.find? · w.items) (funext fun entry => ?_)
    by_cases he : entry.1 = name'
    · simp [he, h]
    · simp [he]
  rw [item?, item?, assign, List.find?_cons_of_neg (by simpa using h.symm), hkept]

theorem table?_assign_self (w : Workspace) (name : String) (t : Table) :
    (w.assign name (.table t)).table? name = some t := by
  simp [table?]

theorem table?_assign_of_ne (w : Workspace) {name name' : String} (item : Item)
    (h : name' ≠ name) : (w.assign name item).table? name' = w.table? name' := by
  simp [table?, h]

variable (name : Nat → String) (home : Nat)

def withTable (w : Workspace) (place : Nat) (f : Table → Attempt Workspace) : Attempt Workspace :=
  match w.table? (name place) with
  | none => misused .outOfBounds
  | some t => f t

/-- Answers a call for the tables under the names of their places and the registry at `home`.  As
many tables as `made` were made before. -/
def perform (w : Workspace) (made : Nat) : Call → Attempt Workspace
  | .create revision title operandBits => do
    let r ← Revision.read revision
    return w.assign (name made) (.table (.empty r title operandBits))
  | .register place code schema => w.withTable name place fun t => do
    let (_, _, w') ← w.registerEvent (name place) t code schema
    return w'
  | .close place => w.withTable name place fun t => .ok (w.sealTable (name place) t)
  | .publish revision place => w.withTable name place fun t => do
    let (_, w') ← w.publish home revision (name place) t
    return w'

/-- The workspace after some calls; what fails changes nothing. -/
def after (w : Workspace) (made : Nat) : List Call → Workspace
  | [] => w
  | call :: calls =>
    after ((w.perform name home made call).toOption.getD w) (made + call.makes) calls

/-- A workspace **mirrors** a catalogue if both have the same tables and the same registry. -/
structure Mirrors (w : Workspace) (c : Catalogue) : Prop where
  tables : ∀ place, w.table? (name place) = c.tables[place]?
  registry : w.registries[home]? = some c.registry

/-- An answer is **alike** in a workspace and in a catalogue: both succeed and what they leave
mirrors each other, or both fail for the same reason and the catalogue is left as it was. -/
inductive Alike (c : Catalogue) : Attempt Workspace → Attempt Unit × Catalogue → Prop
  | done {w' : Workspace} {c' : Catalogue} (h : Mirrors name home w' c') :
      Alike c (.ok w') (.ok (), c')
  | failed (e : Failure) : Alike c (.error e) (.error e, c)

theorem Alike.mirrors {name home} {w : Workspace} {c : Catalogue} {answer : Attempt Workspace}
    {answer' : Attempt Unit × Catalogue} (h : Alike name home c answer answer')
    (hw : Mirrors name home w c) : Mirrors name home (answer.toOption.getD w) answer'.2 := by
  cases h with
  | done h' => exact h'
  | failed e => exact hw

namespace Mirrors

variable {name home} {w : Workspace} {c : Catalogue}

theorem table?_assign (h : Mirrors name home w c) (hname : name.Injective) {place : Nat}
    {t : Table} (ht : c.tables[place]? = some t) (t' : Table) (place' : Nat) :
    (w.assign (name place) (.table t')).table? (name place') =
      (c.tables.set place t')[place']? := by
  by_cases he : place' = place
  · rw [he, table?_assign_self, List.getElem?_set_self (List.getElem?_eq_some_iff.mp ht).1]
  · rw [table?_assign_of_ne w _ (hname.ne he), h.tables place', List.getElem?_set_ne (Ne.symm he)]

theorem withTable (h : Mirrors name home w c) {place : Nat} {f : Table → Attempt Workspace}
    {f' : Table → Attempt Unit × Catalogue}
    (hf : ∀ t, c.tables[place]? = some t → Alike name home c (f t) (f' t)) :
    Alike name home c (w.withTable name place f) (c.withTable place f') := by
  rw [Workspace.withTable, Catalogue.withTable, h.tables place]
  cases ht : c.tables[place]? with
  | none => exact .failed _
  | some t => exact hf t ht

theorem registry_of_changes {call : Call} {c' : Catalogue} (h : Mirrors name home w c)
    (hs : c.Sound) (hchanges : c.Changes call c') (hnone : call.revision? = none) :
    w.registries[home]? = some c'.registry := by
  rcases hchanges.registry_eq hs with ⟨-, hsame⟩ | ⟨revision, place, t, rfl, -⟩
  · exact h.registry.trans (congrArg some hsame.symm)
  · cases hnone

/-- **One call is answered alike** in a workspace and in the catalogue that it mirrors. -/
theorem perform (h : Mirrors name home w c) (hname : name.Injective) (hs : c.Sound)
    (call : Call) :
    Alike name home c (w.perform name home c.tables.length call) (c.perform call) := by
  cases call with
  | create revision title operandBits =>
    rw [Workspace.perform, Catalogue.perform]
    cases hr : Revision.read revision with
    | error e => exact .failed e
    | ok r =>
      have hchanges := Catalogue.Changes.create (c := c) title operandBits hr
      -- The new table comes under the next name, and names that come later still stand for nothing.
      refine .done ⟨fun place => ?_, h.registry_of_changes hs hchanges rfl⟩
      by_cases he : place = c.tables.length
      · rw [he, table?_assign_self, List.getElem?_append_right (Nat.le_refl _), Nat.sub_self]
        rfl
      · rw [table?_assign_of_ne w _ (hname.ne he), h.tables place]
        rcases Nat.lt_or_gt_of_ne he with hlt | hgt
        · exact (List.getElem?_append_left hlt).symm
        · rw [List.getElem?_eq_none (Nat.le_of_lt hgt), List.getElem?_eq_none]
          rw [List.length_append]
          exact hgt
  | register place code schema =>
    refine h.withTable fun t ht => ?_
    cases hreg : t.register code schema with
    | error e =>
      simp only [registerEvent, hreg]
      exact .failed e
    | ok result =>
      have hchanges := Catalogue.Changes.register ht hreg
      simp only [registerEvent, hreg]
      exact .done ⟨h.table?_assign hname ht result.2, h.registry_of_changes hs hchanges rfl⟩
  | close place =>
    refine h.withTable fun t ht => ?_
    have hchanges := Catalogue.Changes.close ht
    exact .done ⟨h.table?_assign hname ht t.close, h.registry_of_changes hs hchanges rfl⟩
  | publish revision place =>
    refine h.withTable fun t ht => ?_
    have hat : w.registryAt home = c.registry := by rw [registryAt, h.registry]; rfl
    rw [Catalogue.publish_eq]
    cases hreg : c.registry.register revision t with
    | error e =>
      simp only [publish, hat, hreg]
      exact .failed e
    | ok g =>
      simp only [publish, hat, hreg]
      refine .done ⟨h.table?_assign hname ht t.close, ?_⟩
      rw [Catalogue.registry_of_register ht hreg]
      exact List.getElem?_set_self (List.getElem?_eq_some_iff.mp h.registry).1

/-- **Every run is answered alike**: a workspace that mirrors a catalogue still does so after any
calls. -/
theorem after (hname : name.Injective) (calls : List Call) : ∀ {w : Workspace} {c : Catalogue},
    Mirrors name home w c → c.Sound →
      Mirrors name home (w.after name home c.tables.length calls) (c.after calls) := by
  induction calls with
  | nil => intro w c h hs; exact h
  | cons call calls ih =>
    intro w c h hs
    have hnext := (h.perform hname hs call).mirrors h
    have hsound : (c.perform call).2.Sound := Catalogue.sound_after hs [call]
    have hafter := ih hnext hsound
    rwa [Catalogue.length_perform] at hafter

end Mirrors

theorem mirrors_addRegistry (registryName : String) :
    Mirrors name 0 (empty.addRegistry registryName .empty) .empty := by
  refine ⟨fun place => ?_, rfl⟩
  by_cases he : name place = registryName
  · simp [addRegistry, table?, he, Catalogue.empty]
  · rw [addRegistry, table?_assign_of_ne _ _ he]
    rfl

/-- **A registry of copies is as good as one that shares its tables**: after any calls, a workspace
with one registry holds in it what the catalogue's registry sees. -/
theorem registryAt_after (hname : name.Injective) (registryName : String) (calls : List Call) :
    ((empty.addRegistry registryName .empty).after name 0 0 calls).registryAt 0 =
      (Catalogue.empty.after calls).registry := by
  have hmirrors :=
    Mirrors.after hname calls (mirrors_addRegistry name registryName) Catalogue.sound_empty
  rw [registryAt]
  exact congrArg (Option.getD · Registry.empty) hmirrors.registry

end Workspace

end EventDialects
