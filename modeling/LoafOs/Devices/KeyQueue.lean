import LoafOs.Devices.Keyboard
import LoafOs.Lib.CircularSlice

/-!
# The queue of typed characters

The keyboard buffer as a queue: the unread characters are those that
`kbd_getchar` would return from here on.  A buffer whose last free cell is
filled looks empty, and everything in it is lost.
-/

namespace LoafOs

namespace Keyboard

/-- The driver when the kernel starts. -/
def boot : Keyboard := ⟨fun _ => 0, 0, 0, false⟩

/-- What the driver is called for. -/
inductive KeyEvent where
  | pressed (scancode : UInt8)
  | read
  deriving DecidableEq, Repr

/-- The driver after a call. -/
def next (kbd : Keyboard) : KeyEvent → Keyboard
  | .pressed scancode => (kbd.interrupt scancode).1
  | .read => kbd.getchar.2

/-- The character that a call types, if there is one. -/
def typedBy (kbd : Keyboard) : KeyEvent → List UInt8
  | .pressed scancode =>
      if (kbd.interrupt scancode).2 then [kbd.charOf scancode] else []
  | .read => []

/-- The character that a call returns, if there is one. -/
def returnedBy (kbd : Keyboard) : KeyEvent → List UInt8
  | .pressed _ => []
  | .read => kbd.getchar.1.toList

/-- The characters that a run types. -/
def typed : Keyboard → List KeyEvent → List UInt8
  | _, [] => []
  | kbd, event :: events => kbd.typedBy event ++ typed (kbd.next event) events

/-- The characters that a run returns. -/
def returned : Keyboard → List KeyEvent → List UInt8
  | _, [] => []
  | kbd, event :: events =>
      kbd.returnedBy event ++ returned (kbd.next event) events

/-- What `count` calls of `kbd_getchar` return. -/
def drain : (count : Nat) → Keyboard → List UInt8
  | 0, _ => []
  | count + 1, kbd =>
      kbd.returnedBy .read ++ drain count (kbd.next .read)

/-- The unread characters: a buffer is drained after a round. -/
def unread (kbd : Keyboard) : List UInt8 :=
  kbd.drain kbdBufferSize

/-- Every call of a run meets a condition. -/
def EveryCall (condition : Keyboard → KeyEvent → Prop) :
    Keyboard → List KeyEvent → Prop
  | _, [] => True
  | kbd, event :: events =>
      condition kbd event ∧ EveryCall condition (kbd.next event) events

instance EveryCall.decidable (condition : Keyboard → KeyEvent → Prop)
    [∀ kbd event, Decidable (condition kbd event)] (kbd : Keyboard)
    (events : List KeyEvent) :
    Decidable (EveryCall condition kbd events) :=
  match events with
  | [] => .isTrue trivial
  | event :: events =>
      have := EveryCall.decidable condition (kbd.next event) events
      inferInstanceAs (Decidable (_ ∧ _))

/-- The unread characters keep their order over a call, and a call loses
none of them nor the one it types; but a key press with `KBD_BUFFER_SIZE - 1`
unread characters may lose one. -/
structure LossBounded (kbd : Keyboard) (event : KeyEvent) : Prop where
  ordered : (kbd.returnedBy event ++ (kbd.next event).unread).Sublist
    (kbd.unread ++ kbd.typedBy event)
  bounded : (kbd.unread ++ kbd.typedBy event).length ≤
    (kbd.returnedBy event ++ (kbd.next event).unread).length +
      if kbd.typedBy event ≠ [] ∧ kbdBufferSize - 1 ≤ kbd.unread.length
        then 1 else 0

/-- A character is typed only while a cell is free besides the one that
the writer must not reach. -/
def HasRoom (kbd : Keyboard) (event : KeyEvent) : Prop :=
  kbd.typedBy event ≠ [] → kbd.stored + 1 < kbdBufferSize

instance (kbd : Keyboard) (event : KeyEvent) :
    Decidable (kbd.HasRoom event) :=
  inferInstanceAs (Decidable (_ → _))

variable {kbd : Keyboard} {event : KeyEvent} {c scancode : UInt8}

theorem Ok.next (ok : kbd.Ok) (event : KeyEvent) : (kbd.next event).Ok := by
  cases event with
  | pressed scancode => exact ok.interrupt
  | read => exact ok.getchar

/-! ## What is unread -/

/-- The characters between the two positions. -/
def contents (kbd : Keyboard) : List UInt8 :=
  Circular.slice kbd.buffer kbdBufferSize kbd.readPos kbd.stored

theorem contents_length : kbd.contents.length = kbd.stored :=
  Circular.slice_length

theorem contents_empty (ok : kbd.Ok) (empty : kbd.stored = 0) :
    kbd.returnedBy .read = [] ∧ kbd.next .read = kbd := by
  have nothing := getchar_none ok empty
  constructor
  · rw [returnedBy, nothing]
    rfl
  · rw [next, nothing]

theorem contents_read (ok : kbd.Ok) :
    kbd.returnedBy .read ++ (kbd.next .read).contents = kbd.contents := by
  cases count : kbd.stored with
  | zero =>
      obtain ⟨nothing, same⟩ := contents_empty ok count
      rw [nothing, same, List.nil_append]
  | succ left =>
      have nonempty : 0 < kbd.stored := by omega
      obtain ⟨got, less⟩ := getchar_some ok nonempty
      have rest : kbd.getchar.2.stored = left := by omega
      have different : kbd.readPos ≠ kbd.writePos := by
        intro same
        have zero := (stored_eq_zero_iff ok).mpr same
        omega
      have moved : kbd.getchar.2 =
          { kbd with readPos := (kbd.readPos + 1) % kbdBufferSize } := by
        rw [getchar, if_neg different]
      have behind : kbd.getchar.2.contents =
          Circular.slice kbd.buffer kbdBufferSize
            ((kbd.readPos + 1) % kbdBufferSize) left := by
        rw [contents, rest, moved]
      rw [returnedBy, next, got, behind, contents, count]
      rfl

theorem drain_eq (ok : kbd.Ok) (count : Nat) (enough : kbd.stored ≤ count) :
    kbd.drain count = kbd.contents := by
  induction count generalizing kbd with
  | zero =>
      have empty : kbd.stored = 0 := Nat.le_zero.mp enough
      rw [contents, empty]
      rfl
  | succ count inductionHypothesis =>
      rw [drain, ← contents_read ok, inductionHypothesis (ok.next .read)]
      by_cases empty : kbd.stored = 0
      · rw [(contents_empty ok empty).2]
        omega
      · have less := (getchar_some ok (Nat.pos_of_ne_zero empty)).2
        change kbd.getchar.2.stored ≤ count
        omega

theorem unread_eq (ok : kbd.Ok) : kbd.unread = kbd.contents :=
  drain_eq ok kbdBufferSize (Nat.le_of_lt stored_lt)

/-! ## One call -/

theorem contents_put (ok : kbd.Ok) (room : kbd.stored + 1 < kbdBufferSize) :
    (kbd.put c).contents = kbd.contents ++ [c] := by
  have cell : kbd.writePos = (kbd.readPos + kbd.stored) % kbdBufferSize := by
    have size : kbdBufferSize = 256 := rfl
    have left := ok.readPos
    have right := ok.writePos
    rw [size] at left right ⊢
    rw [stored, size]
    omega
  have within : kbd.stored < kbdBufferSize := stored_lt
  rw [contents, stored_put ok room, contents, put, cell]
  exact Circular.slice_push ok.readPos within

/-- The writer has gone round: the buffer looks empty. -/
theorem contents_lapped (ok : kbd.Ok)
    (full : kbd.stored + 1 = kbdBufferSize) : (kbd.put c).contents = [] := by
  have size : kbdBufferSize = 256 := rfl
  have left := ok.readPos
  have right := ok.writePos
  have empty : (kbd.put c).stored = 0 := by
    simp only [stored, put] at full ⊢
    rw [size] at left right full ⊢
    omega
  rw [contents, empty]
  rfl

/-- A key press either leaves the buffer and its positions alone or puts
the typed character into it. -/
theorem pressed_cases (kbd : Keyboard) (scancode : UInt8) :
    (kbd.typedBy (.pressed scancode) = [] ∧
      (kbd.next (.pressed scancode)).contents = kbd.contents) ∨
    (kbd.typedBy (.pressed scancode) = [kbd.charOf scancode] ∧
      kbd.next (.pressed scancode) = kbd.put (kbd.charOf scancode)) := by
  simp only [typedBy, next, interrupt]
  split
  · exact .inl ⟨rfl, rfl⟩
  split
  · exact .inl ⟨rfl, rfl⟩
  split
  · exact .inl ⟨rfl, rfl⟩
  split
  · exact .inr ⟨rfl, rfl⟩
  · exact .inl ⟨rfl, rfl⟩

/-- What a call returns and leaves unread was unread or is typed by it,
and stands in the same order. -/
theorem Ok.ordered (ok : kbd.Ok) (event : KeyEvent) :
    (kbd.returnedBy event ++ (kbd.next event).unread).Sublist
      (kbd.unread ++ kbd.typedBy event) := by
  rw [unread_eq ok, unread_eq (ok.next event)]
  cases event with
  | read =>
      rw [contents_read ok]
      exact List.sublist_append_left _ _
  | pressed scancode =>
      change ([] ++ _).Sublist _
      rw [List.nil_append]
      rcases pressed_cases kbd scancode with ⟨_, same⟩ | ⟨isTyped, put⟩
      · rw [same]
        exact List.sublist_append_left _ _
      · rw [isTyped, put]
        by_cases room : kbd.stored + 1 < kbdBufferSize
        · simp only [contents_put ok room, List.Sublist.refl]
        · have full : kbd.stored + 1 = kbdBufferSize := by
            have within : kbd.stored < kbdBufferSize := stored_lt
            omega
          rw [contents_lapped ok full]
          exact List.nil_sublist _

/-- A call loses no more than it may exactly when there is room for what
it types. -/
theorem Ok.lossBounded_iff (ok : kbd.Ok) (event : KeyEvent) :
    kbd.LossBounded event ↔ kbd.HasRoom event := by
  have size : kbdBufferSize = 256 := rfl
  have within : kbd.stored < kbdBufferSize := stored_lt
  cases event with
  | read =>
      constructor
      · intro _ isTyped
        exact absurd rfl isTyped
      · intro _
        refine ⟨ok.ordered .read, ?_⟩
        rw [unread_eq ok, unread_eq (ok.next .read), contents_read ok]
        simp [typedBy]
  | pressed scancode =>
      rcases pressed_cases kbd scancode with ⟨silent, same⟩ | ⟨isTyped, put⟩
      · constructor
        · intro _ isTyped
          exact absurd silent isTyped
        · intro _
          refine ⟨ok.ordered _, ?_⟩
          rw [unread_eq ok, unread_eq (ok.next _), same, silent]
          simp [returnedBy]
      · constructor
        · intro lossBounded _
          by_contra noRoom
          have full : kbd.stored + 1 = kbdBufferSize := by omega
          have bounded := lossBounded.bounded
          rw [unread_eq ok, unread_eq (ok.next _), put, isTyped,
            contents_lapped ok full, List.length_append, contents_length]
            at bounded
          simp only [returnedBy, List.length_append, List.length_nil,
            List.length_singleton] at bounded
          split at bounded <;> omega
        · intro hasRoom
          have room := hasRoom (by simp [isTyped])
          refine ⟨ok.ordered _, ?_⟩
          rw [unread_eq ok, unread_eq (ok.next _), put, isTyped,
            contents_put ok room]
          simp [returnedBy]

/-! ## Runs -/

/-- What a run returns was unread or is typed by it, in this order. -/
theorem Ok.returned_sublist (ok : kbd.Ok) (events : List KeyEvent) :
    (kbd.returned events).Sublist (kbd.unread ++ kbd.typed events) := by
  induction events generalizing kbd with
  | nil => exact List.nil_sublist _
  | cons event events inductionHypothesis =>
      have rest := inductionHypothesis (ok.next event)
      have first := ok.ordered event
      calc (kbd.returned (event :: events))
          = kbd.returnedBy event ++ (kbd.next event).returned events := rfl
        List.Sublist _ (kbd.returnedBy event ++
            ((kbd.next event).unread ++ (kbd.next event).typed events)) :=
          rest.append_left _
        _ = (kbd.returnedBy event ++ (kbd.next event).unread) ++
              (kbd.next event).typed events :=
          (List.append_assoc _ _ _).symm
        List.Sublist _ ((kbd.unread ++ kbd.typedBy event) ++
            (kbd.next event).typed events) := first.append_right _
        _ = kbd.unread ++ kbd.typed (event :: events) :=
          List.append_assoc _ _ _

theorem Ok.everyCall_iff (ok : kbd.Ok) (events : List KeyEvent) :
    kbd.EveryCall LossBounded events ↔ kbd.EveryCall HasRoom events := by
  induction events generalizing kbd with
  | nil => exact Iff.rfl
  | cons event events inductionHypothesis =>
      rw [EveryCall, EveryCall, ok.lossBounded_iff event,
        inductionHypothesis (ok.next event)]

theorem boot_ok : boot.Ok :=
  ⟨by decide, by decide⟩

theorem boot_unread : boot.unread = [] := by
  rw [unread_eq boot_ok]
  rfl

end Keyboard

open Keyboard

/-- From boot on, the characters returned are a subsequence of those typed,
and no call loses more than it may. -/
def KeysQueued (events : List KeyEvent) : Prop :=
  (boot.returned events).Sublist (boot.typed events) ∧
    boot.EveryCall LossBounded events

/-- The keys are queued as they should exactly in the runs in which no
character is typed while `KBD_BUFFER_SIZE - 1` of them are unread. -/
theorem keysQueued_iff (events : List KeyEvent) :
    KeysQueued events ↔ boot.EveryCall HasRoom events := by
  constructor
  · intro queued
    exact (boot_ok.everyCall_iff events).mp queued.2
  · intro room
    have order := boot_ok.returned_sublist events
    rw [boot_unread, List.nil_append] at order
    exact ⟨order, (boot_ok.everyCall_iff events).mpr room⟩

/-- 256 presses of the key `a` with no read between them lose them all. -/
theorem lappedKeys_lost :
    ¬KeysQueued (List.replicate 256 (.pressed 0x1e)) := by
  intro queued
  have room := (boot_ok.everyCall_iff _).mp queued.2
  revert room
  decide +kernel

end LoafOs
