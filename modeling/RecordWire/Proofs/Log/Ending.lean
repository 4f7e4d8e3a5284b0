import RecordWire.Log.Basic

/-!
How computations that log end, whatever was logged before them: with a result that has one property, or
with an error that has another. Both follow from those of the steps of a computation; each step is only
made with a result that the one before it can come to.
-/

namespace RecordWire.Logged

variable {ε ε' α β : Type} {Q R : α → Prop} {F : ε → Prop}

def Returns (x : Logged ε α) (a : α) : Prop := ∃ entries entries', x entries = .ok a entries'

/-- All results of the computation have one property, and all its errors another. -/
def Ends (x : Logged ε α) (Q : α → Prop) (F : ε → Prop) : Prop :=
  ∀ entries, match x entries with
    | .ok a _ => Q a
    | .error e _ => F e

theorem Ends.of_returns {x : Logged ε α} (h : x.Ends Q F) {a : α} (ha : x.Returns a) : Q a := by
  obtain ⟨entries, entries', ha⟩ := ha
  have hend := h entries
  rwa [ha] at hend

theorem Ends.mono {x : Logged ε α} {G : ε → Prop} (h : x.Ends Q F) (hok : ∀ a, Q a → R a)
    (herror : ∀ e, F e → G e) : x.Ends R G := by
  intro entries
  have hend := h entries
  cases ha : x entries with
  | ok a mid =>
    rw [ha] at hend
    exact hok a hend
  | error e mid =>
    rw [ha] at hend
    exact herror e hend

theorem ends_pure {a : α} (h : Q a) : (pure a : Logged ε α).Ends Q F := fun _ => h

theorem ends_throw {e : ε} (h : F e) : (throw e : Logged ε α).Ends Q F := fun _ => h

theorem ends_modify (f : List LogEntry → List LogEntry) :
    (modify f : Logged ε Unit).Ends (fun _ => True) F := fun _ => trivial

theorem ends_log (severity : Severity) (component : Component) (text : Text) :
    (log severity component text : Logged ε Unit).Ends (fun _ => True) F := ends_modify _

theorem ends_ofExcept {r : Except ε α} (hok : ∀ a, r = .ok a → Q a)
    (herror : ∀ e, r = .error e → F e) : (ofExcept r).Ends Q F := by
  cases r with
  | ok a => exact ends_pure (hok a rfl)
  | error e => exact ends_throw (herror e rfl)

theorem ends_ofExcept_mapError {r : Except ε' α} {f : ε' → ε} (hok : ∀ a, r = .ok a → Q a)
    (herror : ∀ e, r = .error e → F (f e)) : (ofExcept (r.mapError f)).Ends Q F := by
  cases r with
  | ok a => exact ends_pure (hok a rfl)
  | error e => exact ends_throw (herror e rfl)

theorem Ends.bind {x : Logged ε α} {f : α → Logged ε β} {Q : β → Prop} (hx : x.Ends R F)
    (hf : ∀ a, x.Returns a → R a → (f a).Ends Q F) : (x >>= f).Ends Q F := by
  intro entries
  have hend := hx entries
  change match EStateM.bind x f entries with
    | .ok b _ => Q b
    | .error e _ => F e
  unfold EStateM.bind
  cases ha : x entries with
  | ok a mid =>
    rw [ha] at hend
    exact hf a ⟨entries, mid, ha⟩ hend mid
  | error e mid =>
    rw [ha] at hend
    exact hend

theorem Ends.mapError {f : ε' → ε} {x : Logged ε' α} (hx : x.Ends Q fun e => F (f e)) :
    (mapError f x).Ends Q F := by
  intro entries
  have hend := hx entries
  unfold Logged.mapError
  cases ha : x entries with
  | ok a mid =>
    rw [ha] at hend
    exact hend
  | error e mid =>
    rw [ha] at hend
    exact hend

theorem ends_mapM {f : β → Logged ε α} {xs : List β} (h : ∀ x ∈ xs, (f x).Ends Q F) :
    (xs.mapM f).Ends (fun ys => ∀ y ∈ ys, Q y) F := by
  induction xs with
  | nil =>
    rw [List.mapM_nil]
    exact ends_pure (List.forall_mem_nil _)
  | cons x xs ih =>
    obtain ⟨hx, hxs⟩ := List.forall_mem_cons.1 h
    rw [List.mapM_cons]
    exact hx.bind fun y _ hy => (ih hxs).bind fun ys _ hys =>
      ends_pure (List.forall_mem_cons.2 ⟨hy, hys⟩)

end RecordWire.Logged
