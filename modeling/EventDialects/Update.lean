import EventDialects.Failure

/-!
# Updates

An `Attempt` gives a new state only if it succeeds. An `Update` changes a state step by step and may
fail on the way, and what it has changed by then stays changed: there is a state that it leaves
behind in either case. That a failing update changes nothing is therefore something to be proved.

* `perform_bind`: a sequence goes on in the state that its first step leaves, unless that fails.
* `after_induction`: what every call keeps, together with the calls accepted so far, every run keeps.
-/

namespace EventDialects

/-- An operation on a state that may fail. -/
abbrev Update (σ α : Type) := ExceptT Failure (StateM σ) α

namespace Update

variable {σ κ α β : Type}

/-- The answer of an update, and the state that it leaves behind. -/
def perform (x : Update σ α) (s : σ) : Attempt α × σ := StateT.run (ExceptT.run x) s

@[simp] theorem perform_get (s : σ) : perform (get : Update σ σ) s = (.ok s, s) := rfl

@[simp] theorem perform_modify (f : σ → σ) (s : σ) :
    perform (modify f : Update σ PUnit) s = (.ok ⟨⟩, f s) := rfl

@[simp] theorem perform_liftM (x : Attempt α) (s : σ) :
    perform (liftM x : Update σ α) s = (x, s) := rfl

theorem perform_bind (x : Update σ α) (f : α → Update σ β) (s : σ) :
    perform (x >>= f) s = match perform x s with
      | (.ok a, s') => perform (f a) s'
      | (.error e, s') => (.error e, s') := by
  simp only [perform, ExceptT.run_bind, StateT.run_bind]
  rcases StateT.run (ExceptT.run x) s with ⟨_ | a, s'⟩ <;> rfl

/-! ### Runs -/

/-- The state after some calls, whatever their answers are. -/
def after (f : κ → Update σ Unit) (s : σ) (calls : List κ) : σ :=
  calls.foldl (fun s call => ((f call).perform s).2) s

/-- The calls that succeed, in their order. -/
def accepted (f : κ → Update σ Unit) (s : σ) : List κ → List κ
  | [] => []
  | call :: calls => match (f call).perform s with
    | (.ok _, s') => call :: accepted f s' calls
    | (.error _, s') => accepted f s' calls

/-- **What every call keeps, every run keeps**: a property of the state and of the calls that were
accepted on the way to it. -/
theorem after_induction {f : κ → Update σ Unit} {P : σ → List κ → Prop}
    (hok : ∀ {s s' : σ} {log : List κ} {call : κ}, P s log →
      (f call).perform s = (.ok (), s') → P s' (log ++ [call]))
    (herror : ∀ {s s' : σ} {log : List κ} {call : κ} {e : Failure}, P s log →
      (f call).perform s = (.error e, s') → P s' log)
    (calls : List κ) : ∀ {s : σ} (log : List κ), P s log →
      P (after f s calls) (log ++ accepted f s calls) := by
  induction calls with
  | nil =>
    intro s log h
    rwa [accepted, List.append_nil]
  | cons call calls ih =>
    intro s log h
    have hafter : after f s (call :: calls) = after f ((f call).perform s).2 calls := rfl
    rw [hafter, accepted]
    rcases hcall : (f call).perform s with ⟨_ | _, s'⟩
    · exact ih log (herror h hcall)
    · have hrest := ih (log ++ [call]) (hok h hcall)
      rwa [List.append_assoc, List.singleton_append] at hrest

end Update

end EventDialects
