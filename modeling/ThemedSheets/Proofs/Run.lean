import ThemedSheets.Proofs.Outcome
import ThemedSheets.Run
/- Laws of runs. A run is a list of events and an outcome; going on from a run adds events behind
   and passes faults on, and that is a lawful monad. What a run may leave behind is said by a
   property of events (`Leaves`), which holds of a run if it holds of its parts. Two runs are alike
   where they leave the same behind and end alike, and what goes on from them keeps it so
   (`Alike.bind`). -/
namespace ThemedSheets
namespace Run
variable {α β : Type}

theorem pure_bind (a : α) (f : α → Run β) : pure a >>= f = f a := bind_of_ok rfl f

theorem bind_pure (x : Run α) : x >>= pure = x := by
  cases h : x.outcome with
  | error e => rw [bind_of_error h, ← h]
  | ok a => rw [bind_of_ok h, events_pure, List.append_nil, outcome_pure, ← h]

theorem bind_assoc {γ : Type} (x : Run α) (f : α → Run β) (g : β → Run γ) :
    x >>= f >>= g = x >>= fun a => f a >>= g := by
  cases h : x.outcome with
  | error e => rw [bind_of_error h, bind_of_error h, bind_of_error rfl]
  | ok a =>
    rw [bind_of_ok h, bind_of_ok h]
    cases hf : (f a).outcome with
    | error e => rw [bind_of_error hf, bind_of_error rfl]
    | ok b => rw [bind_of_ok hf, bind_of_ok rfl, List.append_assoc]

instance : LawfulMonad Run :=
  LawfulMonad.mk' Run bind_pure pure_bind bind_assoc

theorem outcome_eq_ok {x : Run α} {a : α} (h : x.outcome.toOption = some a) : x.outcome = .ok a :=
  Outcome.eq_ok h

theorem exists_of_bind_ok {x : Run α} {f : α → Run β} {b : β} (h : (x >>= f).outcome = .ok b) :
    ∃ a, x.outcome = .ok a ∧ (f a).outcome = .ok b := by
  cases hx : x.outcome with
  | error e => rw [bind_of_error hx] at h; simp at h
  | ok a => rw [bind_of_ok hx] at h; exact ⟨a, rfl, h⟩

theorem bind_pure_map (x : Run α) (f : α → β) :
    (x >>= fun a => pure (f a)) = ⟨x.events, x.outcome.map f⟩ := by
  cases h : x.outcome with
  | error e => rw [bind_of_error h]; rfl
  | ok a => rw [bind_of_ok h, events_pure, List.append_nil]; rfl

/-! ## What runs leave behind -/

/-- Every event of the run has the property. -/
def Leaves (P : Event → Prop) (x : Run α) : Prop := ∀ e ∈ x.events, P e

namespace Leaves
variable {P : Event → Prop} {x : Run α} {f : α → Run β}

theorem pure (a : α) : Leaves P (Pure.pure a : Run α) := by simp [Leaves]

theorem fail (fault : Fault) : Leaves P (Run.fail fault : Run α) := by simp [Leaves, Run.fail]

theorem ofExcept (x : Except Fault α) : Leaves P (Run.ofExcept x) := by simp [Leaves, Run.ofExcept]

theorem emit {e : Event} (h : P e) : Leaves P (Run.emit e) := by simpa [Leaves, Run.emit] using h

theorem log (hlog : ∀ record, P (.logged record false)) (level : Log.Level)
    (channel message : String) : Leaves P (Run.log level channel message) := .emit (hlog _)

theorem bind (hx : Leaves P x) (hf : ∀ a, Leaves P (f a)) : Leaves P (x >>= f) := by
  cases h : x.outcome with
  | error e => rw [bind_of_error h]; exact hx
  | ok a =>
    rw [bind_of_ok h]
    exact List.forall_mem_append.2 ⟨hx, hf a⟩

end Leaves

/-! ## Two runs -/

/-- Two runs leave the same events behind and end alike. -/
structure Alike (R : α → β → Prop) (x : Run α) (y : Run β) : Prop where
  events : x.events = y.events
  outcome : Outcome.Alike R x.outcome y.outcome

namespace Alike
variable {γ δ : Type} {R : α → β → Prop} {S : γ → δ → Prop} {x : Run α} {y : Run β}

theorem pure {a : α} {b : β} (h : R a b) : Alike R (Pure.pure a) (Pure.pure b) := ⟨rfl, .value h⟩

theorem ofExcept {x : Except Fault α} {y : Except Fault β} (h : Outcome.Alike R x y) :
    Alike R (Run.ofExcept x) (Run.ofExcept y) := ⟨rfl, h⟩

theorem bind {f : α → Run γ} {g : β → Run δ} (h : Alike R x y)
    (hnext : ∀ a b, R a b → Alike S (f a) (g b)) : Alike S (x >>= f) (y >>= g) := by
  obtain ⟨before, result⟩ := x
  obtain ⟨before', result'⟩ := y
  obtain ⟨rfl, houtcome⟩ := h
  cases houtcome with
  | fault e => exact ⟨rfl, .fault e⟩
  | @value a b hab =>
    rw [bind_of_ok rfl, bind_of_ok rfl]
    exact ⟨congrArg _ (hnext a b hab).events, (hnext a b hab).outcome⟩

theorem after {f : α → Run γ} {g : α → Run δ} (x : Run α) (h : ∀ a, Alike S (f a) (g a)) :
    Alike S (x >>= f) (x >>= g) :=
  bind ⟨rfl, .refl (fun _ => rfl) x.outcome⟩ fun a _ hsame => hsame ▸ h a

end Alike

end Run
end ThemedSheets
