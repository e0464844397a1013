import Mathlib.Data.List.Forall2

/-!
# NativePreferences.Lib.Reactive

**Systems that answer requests one at a time.** A system is a function that takes a state
and a request to a reply and the next state; `respond` runs it on a list of requests.

`respond_simulates` is the rule for showing that one system does what another says: a
relation between their states that every request keeps, while the two replies agree.
-/

namespace NativePreferences.Lib

variable {σ α ι ω ω' : Type*}

/-- The replies to a list of requests, and the state the system ends in. -/
def respond (step : σ → ι → ω × σ) : σ → List ι → List ω × σ
  | s, [] => ([], s)
  | s, i :: is =>
      let rest := respond step (step s i).2 is
      ((step s i).1 :: rest.1, rest.2)

/-- Simulation rule: what one request does, given `R` between the states, carries over to
every list of requests that are all `ok`. -/
theorem respond_simulates {step : σ → ι → ω × σ} {spec : α → ι → ω' × α} {R : σ → α → Prop}
    {Q : ω → ω' → Prop} {ok : ι → Prop}
    (hstep : ∀ s a i, R s a → ok i → Q (step s i).1 (spec a i).1 ∧ R (step s i).2 (spec a i).2)
    {s : σ} {a : α} (h : R s a) (is : List ι) (hok : ∀ i ∈ is, ok i) :
    List.Forall₂ Q (respond step s is).1 (respond spec a is).1 ∧
      R (respond step s is).2 (respond spec a is).2 := by
  induction is generalizing s a with
  | nil => exact ⟨.nil, h⟩
  | cons i is ih =>
      obtain ⟨hreply, hnext⟩ := hstep s a i h (hok i List.mem_cons_self)
      obtain ⟨hrest, hend⟩ := ih hnext (fun j hj => hok j (List.mem_cons_of_mem _ hj))
      exact ⟨.cons hreply hrest, hend⟩

end NativePreferences.Lib
