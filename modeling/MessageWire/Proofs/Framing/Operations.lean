import MessageWire.Message.Assembler
/-!
# Operations on an assembler

Everything that may be done with an assembler is one of a few operations, and an assembler comes about by a list of
them. A property that the basic operations keep is kept by all lists of operations (`Assembler.after_induction`); the
bytes that are fed go through the scratch buffer like any others.
-/

namespace MessageWire

/-- What may be done with an assembler. -/
inductive Operation where
  | load (offset : Nat) (data : Bytes)
  /-- Bytes that lie in the scratch buffer are taken in. -/
  | processAt (offset received : Nat)
  | feed (data : Bytes)
  | reset
  | dispose
  | setMaxMessageSize (max : Nat)
  | observe (observed : Bool)
  deriving DecidableEq

namespace Assembler

def perform (a : Assembler) : Operation → Reaction
  | .load offset data =>
    match a.load offset data with
    | .error e => ⟨.error e, [], a⟩
    | .ok a' => ⟨.ok (), [], a'⟩
  | .processAt offset received => a.processAt offset received
  | .feed data => a.feed data
  | .reset => a.reset
  | .dispose => ⟨.ok (), [], a.dispose⟩
  | .setMaxMessageSize max => ⟨.ok (), [], a.setMaxMessageSize max⟩
  | .observe observed => ⟨.ok (), [], a.observe observed⟩

/-- The assembler after some operations, whether these failed or not. -/
def after (a : Assembler) : List Operation → Assembler
  | [] => a
  | op :: ops => (a.perform op).assembler.after ops

theorem after_append (a : Assembler) (ops later : List Operation) :
    a.after (ops ++ later) = (a.after ops).after later := by
  induction ops generalizing a with
  | nil => rfl
  | cons op ops ih => exact ih _

section Induction

variable {motive : Assembler → Prop}
  (load : ∀ a a' offset data, a.load offset data = .ok a' → motive a → motive a')
  (processAt : ∀ a offset received, motive a → motive (a.processAt offset received).assembler)

include load processAt

theorem receive_induction (a : Assembler) (data : Bytes) (h : motive a) : motive (a.receive data).assembler := by
  unfold receive
  split
  case h_1 => exact h
  case h_2 a' hload => exact processAt a' 0 data.length (load a a' 0 data hload h)

theorem feed_induction (a : Assembler) (data : Bytes) (h : motive a) : motive (a.feed data).assembler := by
  unfold feed
  split
  case h_1 => exact h
  case h_2 scratch hscratch =>
    clear hscratch
    generalize receives scratch.capacity data = pieces
    induction pieces generalizing a with
    | nil => exact h
    | cons piece pieces ih =>
      have hpiece := receive_induction load processAt a piece h
      rw [receiveAll]
      split
      · exact hpiece
      · exact ih _ hpiece

theorem after_induction (reset : ∀ a, motive a → motive a.reset.assembler)
    (dispose : ∀ a, motive a → motive a.dispose)
    (setMaxMessageSize : ∀ a max, motive a → motive (a.setMaxMessageSize max))
    (observe : ∀ a observed, motive a → motive (a.observe observed))
    (ops : List Operation) (a : Assembler) (h : motive a) : motive (a.after ops) := by
  induction ops generalizing a with
  | nil => exact h
  | cons op ops ih =>
    apply ih
    cases op with
    | load offset data =>
      rw [perform]
      cases hload : a.load offset data with
      | error e => exact h
      | ok a' => exact load a a' offset data hload h
    | processAt offset received => exact processAt a offset received h
    | feed data => exact feed_induction load processAt a data h
    | reset => exact reset a h
    | dispose => exact dispose a h
    | setMaxMessageSize max => exact setMaxMessageSize a max h
    | observe observed => exact observe a observed h

end Induction

end Assembler

end MessageWire
