/-
This file models the console's input queue and proves that it never yields a spliced
command. Losing input empties the queue, announces the loss to the reader and drops what
is typed until a line ends. What the reader gets between two announcements is therefore
one piece of what was typed, and the piece starts where a line starts.
-/

import Mmurtl.Library.Ring
import Mmurtl.Library.Transition

namespace Mmurtl.Keyboard

open Transition List

/-! ### The queue -/

def queueSize : Nat := 1024

/-- What a reader of the console gets. -/
inductive InputEvent where
  | byte (value : UInt8)
  | lost
  deriving DecidableEq

/-- The bytes typed and not read yet, whether a loss is still to be announced and whether
input is dropped until the line ends. -/
structure InputQueue where
  bytes : Ring UInt8 queueSize
  lost : Bool
  discarding : Bool

/-- A newline or a carriage return. -/
def endsLine (byte : UInt8) : Bool := byte == 10 || byte == 13

namespace InputQueue

def new : InputQueue where
  bytes := Ring.reset (Vector.replicate queueSize 0) (by decide)
  lost := false
  discarding := false

/-- Forget every buffered line. -/
def invalidate (queue : InputQueue) : InputQueue where
  bytes := Ring.reset queue.bytes.slots (by decide)
  lost := true
  discarding := true

/-- Stop dropping input if the byte ends a line. -/
def resume (queue : InputQueue) (byte : UInt8) : InputQueue :=
  if endsLine byte then { queue with discarding := false } else queue

def push (queue : InputQueue) (byte : UInt8) : InputQueue :=
  if queue.discarding then queue.resume byte
  else if full : queue.bytes.len = queueSize then queue.invalidate.resume byte
  else { queue with
    bytes := queue.bytes.push byte (Nat.lt_of_le_of_ne queue.bytes.bounded full) }

def pop (queue : InputQueue) : Option InputEvent × InputQueue :=
  if queue.lost then (some .lost, { queue with lost := false })
  else if empty : queue.bytes.len = 0 then (none, queue)
  else
    let taken := queue.bytes.pop (Nat.pos_of_ne_zero empty)
    (some (.byte taken.1), { queue with bytes := taken.2 })

end InputQueue

/-! ### Histories -/

/-- A call of the queue, with what it returned. -/
inductive Call where
  | push (byte : UInt8)
  | invalidate
  | pop (result : Option InputEvent)

variable {before start after : InputQueue} {call : Call} {later : List (Move InputQueue Call)}

/-- The queue under any sequence of calls. -/
def console : LabelledSystem InputQueue Call where
  init queue := queue = .new
  step before call after :=
    match call with
    | .push byte => after = before.push byte
    | .invalidate => after = before.invalidate
    | .pop result => before.pop = (result, after)

/-- The byte a move pushes. -/
def pushedBy (move : Move InputQueue Call) : Option UInt8 :=
  match move.label with
  | .push byte => some byte
  | _ => none

/-- What a move's call of `pop` returned. -/
def resultOf (move : Move InputQueue Call) : Option (Option InputEvent) :=
  match move.label with
  | .pop result => some result
  | _ => none

/-- The stream of bytes pushed in a history. -/
def pushed (moves : List (Move InputQueue Call)) : List UInt8 := moves.filterMap pushedBy

/-- What the calls of `pop` returned in a history. -/
def results (moves : List (Move InputQueue Call)) : List (Option InputEvent) :=
  moves.filterMap resultOf

/-- The events popped in a history. -/
def popped (moves : List (Move InputQueue Call)) : List InputEvent :=
  (results moves).filterMap fun result => result

/-- A move that loses input: an invalidation, or a byte that finds the queue full. -/
def Loses (move : Move InputQueue Call) : Prop :=
  match move.label with
  | .push _ => move.before.discarding = false ∧ move.before.bytes.len = queueSize
  | .invalidate => True
  | .pop _ => False

/-- What a reader has heard: the pieces that a loss ended, and the piece it is reading. -/
structure Heard where
  finished : List (List UInt8)
  current : List UInt8

namespace Heard

def hear (heard : Heard) : InputEvent → Heard
  | .byte value => { heard with current := heard.current ++ [value] }
  | .lost => ⟨heard.finished ++ [heard.current], []⟩

/-- The bytes between the losses, in order. -/
def pieces (heard : Heard) : List (List UInt8) := heard.finished ++ [heard.current]

end Heard

/-- The bytes of some events, cut at every loss. -/
def heard (events : List InputEvent) : Heard := events.foldl Heard.hear ⟨[], []⟩

/-! ### Pieces of a stream -/

/-- A line can start after these bytes: there are none, or the last one ends a line. -/
def Begins (before : List UInt8) : Prop :=
  before = [] ∨ ∃ earlier last, before = earlier ++ [last] ∧ endsLine last = true

/-- A contiguous piece of a stream that starts where a line can start. -/
def Aligned (stream piece : List UInt8) : Prop :=
  ∃ before after, stream = before ++ piece ++ after ∧ Begins before

/-- Pieces of a stream one behind the other, each starting where a line can start. -/
inductive Lines : List (List UInt8) → List UInt8 → Prop where
  | nil (stream : List UInt8) : Lines [] stream
  | blank {pieces : List (List UInt8)} {stream : List UInt8} (lines : Lines pieces stream) :
      Lines (pieces ++ [[]]) stream
  | piece {pieces : List (List UInt8)} {before : List UInt8} (lines : Lines pieces before)
      (begins : Begins before) (piece after : List UInt8) :
      Lines (pieces ++ [piece]) (before ++ piece ++ after)

theorem Begins.concat {before : List UInt8} {byte : UInt8} (ends : endsLine byte = true) :
    Begins (before ++ [byte]) := .inr ⟨before, byte, rfl, ends⟩

variable {stream : List UInt8}

theorem Aligned.more {piece : List UInt8} (aligned : Aligned stream piece) (later : List UInt8) :
    Aligned (stream ++ later) piece := by
  obtain ⟨before, after, rfl, begins⟩ := aligned
  exact ⟨before, after ++ later, append_assoc .., begins⟩

theorem Lines.more {pieces : List (List UInt8)} (lines : Lines pieces stream) (later : List UInt8) :
    Lines pieces (stream ++ later) := by
  induction lines with
  | nil => exact .nil _
  | blank _ ih => exact .blank ih
  | piece lines begins piece after =>
    rw [append_assoc (_ ++ piece)]
    exact .piece lines begins piece (after ++ later)

/-- Every piece is aligned on its own. -/
theorem Lines.aligned {pieces : List (List UInt8)} (lines : Lines pieces stream) :
    ∀ piece ∈ pieces, Aligned stream piece := by
  induction lines with
  | nil => exact nofun
  | blank _ ih =>
    exact forall_mem_append.mpr ⟨ih, forall_mem_singleton.mpr ⟨[], _, rfl, .inl rfl⟩⟩
  | @piece pieces before lines begins latest after ih =>
    intro piece member
    rcases mem_append.mp member with earlier | last
    · rw [append_assoc]
      exact (ih piece earlier).more _
    · rw [mem_singleton.mp last]
      exact ⟨before, after, rfl, begins⟩

/-! ### What the queue keeps -/

/-- The pieces that are complete once a loss that is still to be announced is announced. -/
def Heard.complete (heard : Heard) (lost : Bool) : List (List UInt8) :=
  if lost then heard.pieces else heard.finished

/-- The bytes a reader has of the piece that the queue holds the rest of. -/
def Heard.reading (heard : Heard) (lost : Bool) : List UInt8 :=
  if lost then [] else heard.current

/-- Where the queue stands in the stream. Either it holds what follows the bytes read of the
piece that is being read, or it drops input and holds nothing. -/
inductive Tracks (queue : InputQueue) (stream : List UInt8) (heard : Heard) : Prop where
  | following (before : List UInt8) (accepting : queue.discarding = false)
      (lines : Lines (heard.complete queue.lost) before) (begins : Begins before)
      (whole : stream = before ++ heard.reading queue.lost ++ queue.bytes.contents)
  | dropping (discarding : queue.discarding = true)
      (lines : Lines (heard.complete queue.lost) stream)
      (unread : heard.reading queue.lost = []) (emptied : queue.bytes.contents = [])

section Tracks

variable {queue : InputQueue} {heard : Heard}

theorem Tracks.new : Tracks .new [] ⟨[], []⟩ :=
  .following [] rfl (.nil _) (.inl rfl) rfl

section

variable (tracks : Tracks queue stream heard)
include tracks

/-- A piece being read is aligned with the pieces before it. -/
theorem Tracks.lines : Lines heard.pieces stream := by
  cases tracks with
  | following before _ lines begins whole =>
    subst whole
    cases lost : queue.lost with
    | false =>
      rw [lost] at lines
      exact .piece lines begins heard.current _
    | true =>
      rw [lost] at lines
      exact (lines.more _).more _
  | dropping _ lines unread _ =>
    cases lost : queue.lost with
    | false =>
      rw [lost] at lines unread
      have blank : heard.current = [] := unread
      rw [Heard.pieces, blank]
      exact .blank lines
    | true =>
      rw [lost] at lines
      exact lines

theorem Tracks.invalidate : Tracks queue.invalidate stream heard :=
  .dropping rfl tracks.lines rfl rfl

/-- A queue that drops input goes on dropping it, or holds what follows the end of a line. -/
theorem Tracks.resume (discarding : queue.discarding = true) (byte : UInt8) :
    Tracks (queue.resume byte) (stream ++ [byte]) heard := by
  cases tracks with
  | following _ accepting =>
    rw [discarding] at accepting
    cases accepting
  | dropping _ lines unread emptied =>
    unfold InputQueue.resume
    by_cases ends : endsLine byte = true
    · rw [if_pos ends]
      refine .following (stream ++ [byte]) rfl (lines.more _) (.concat ends) ?_
      rw [unread, emptied, append_nil, append_nil]
    · rw [if_neg ends]
      exact .dropping discarding (lines.more _) unread emptied

theorem Tracks.push (byte : UInt8) : Tracks (queue.push byte) (stream ++ [byte]) heard := by
  unfold InputQueue.push
  by_cases discarding : queue.discarding = true
  · rw [if_pos discarding]
    exact tracks.resume discarding byte
  · rw [if_neg discarding]
    by_cases full : queue.bytes.len = queueSize
    · rw [dif_pos full]
      exact tracks.invalidate.resume rfl byte
    · rw [dif_neg full]
      cases tracks with
      | following before accepting lines begins whole =>
        refine .following before accepting lines begins ?_
        rw [Ring.contents_push, whole, append_assoc _ queue.bytes.contents]
      | dropping dropped => exact absurd dropped discarding

end

/-- What a call of `pop` does, by what the queue holds. -/
theorem pop_cases (queue : InputQueue) :
    (queue.lost = true ∧ queue.pop = (some .lost, { queue with lost := false })) ∨
    (queue.lost = false ∧ queue.bytes.contents = [] ∧ queue.pop = (none, queue)) ∨
    ∃ byte ring, queue.lost = false ∧ queue.bytes.contents = byte :: ring.contents ∧
      queue.pop = (some (.byte byte), { queue with bytes := ring }) := by
  unfold InputQueue.pop
  by_cases lost : queue.lost = true
  · exact .inl ⟨lost, if_pos lost⟩
  · rw [if_neg lost]
    have announced := Bool.eq_false_of_not_eq_true lost
    by_cases empty : queue.bytes.len = 0
    · rw [dif_pos empty]
      refine .inr (.inl ⟨announced, length_eq_zero_iff.mp ?_, rfl⟩)
      rw [Ring.contents_length, empty]
    · rw [dif_neg empty]
      exact .inr (.inr ⟨_, _, announced, Ring.contents_pop _ _, rfl⟩)

theorem Tracks.pop (tracks : Tracks queue stream heard) :
    Tracks queue.pop.2 stream (queue.pop.1.elim heard heard.hear) := by
  rcases pop_cases queue with ⟨lost, taken⟩ | ⟨_, _, taken⟩ | ⟨_, _, lost, holds, taken⟩
  · rw [taken]
    cases tracks with
    | following before accepting lines begins whole =>
      rw [lost] at lines whole
      exact .following before accepting lines begins whole
    | dropping discarding lines unread emptied =>
      rw [lost] at lines unread
      exact .dropping discarding lines unread emptied
  · rw [taken]
    exact tracks
  · rw [taken]
    cases tracks with
    | following before accepting lines begins whole =>
      rw [lost] at lines whole
      refine .following before accepting ?_ begins ?_
      · rw [lost]
        exact lines
      · rw [lost, whole, holds]
        simp [Heard.reading, Heard.hear]
    | dropping _ _ _ emptied =>
      rw [emptied] at holds
      cases holds

end Tracks

/-! ### Whole histories -/

section Histories

variable {moves : List (Move InputQueue Call)} {last : InputQueue}

section

variable (run : Run console start moves last)
include run

theorem run_push (byte : UInt8) :
    Run console start (moves ++ [⟨last, .push byte, last.push byte⟩]) (last.push byte) :=
  run.snoc rfl

theorem run_invalidate :
    Run console start (moves ++ [⟨last, .invalidate, last.invalidate⟩]) last.invalidate :=
  run.snoc rfl

theorem run_pop : Run console start (moves ++ [⟨last, .pop last.pop.1, last.pop.2⟩]) last.pop.2 :=
  run.snoc rfl

end

section

variable (moves : List (Move InputQueue Call)) (move : Move InputQueue Call)

theorem pushed_concat :
    pushed (moves ++ [move]) = pushed moves ++ (pushedBy move).toList := filterMap_concat ..

theorem results_concat :
    results (moves ++ [move]) = results moves ++ (resultOf move).toList := filterMap_concat ..

theorem popped_concat :
    popped (moves ++ [move]) = popped moves ++ (resultOf move).join.toList := by
  rw [popped, results_concat, filterMap_append]
  rcases given : resultOf move with _ | _ | _ <;> simp [popped]

end

theorem heard_concat (events : List InputEvent) (event : Option InputEvent) :
    heard (events ++ event.toList) = event.elim (heard events) (heard events).hear := by
  cases event with
  | none => exact congrArg heard (append_nil events)
  | some event => exact foldl_append

theorem tracks_of_run (run : Run console .new moves last) :
    Tracks last (pushed moves) (heard (popped moves)) := by
  induction run with
  | nil => exact .new
  | @snoc before after moves call _ step tracks =>
    rw [pushed_concat, popped_concat, heard_concat]
    cases call with
    | push byte =>
      cases step
      exact tracks.push byte
    | invalidate =>
      cases step
      exact (append_nil (pushed moves)).symm ▸ tracks.invalidate
    | pop result =>
      have taken : before.pop = (result, after) := step
      have next := tracks.pop
      rw [taken] at next
      exact (append_nil (pushed moves)).symm ▸ next

/-- A loss waits to be announced, or was announced by the first pop after it. -/
def Announced (later : List (Move InputQueue Call)) (last : InputQueue) : Prop :=
  results later = [] ∧ last.lost = true ∨ (results later).head? = some (some .lost)

theorem resume_lost (queue : InputQueue) (byte : UInt8) :
    (queue.resume byte).lost = queue.lost := by
  unfold InputQueue.resume
  split <;> rfl

/-- A push never withdraws a loss. -/
theorem push_lost {queue : InputQueue} (lost : queue.lost = true) (byte : UInt8) :
    (queue.push byte).lost = true := by
  unfold InputQueue.push
  split
  · rw [resume_lost, lost]
  · split
    · rw [resume_lost]
      rfl
    · exact lost

/-- A move that loses input leaves the loss to be announced. -/
theorem lost_of_loses (step : console.step before call after)
    (loses : Loses ⟨before, call, after⟩) : after.lost = true := by
  cases call with
  | push byte =>
    obtain ⟨accepting, full⟩ : before.discarding = false ∧ before.bytes.len = queueSize := loses
    have pushed : after = before.push byte := step
    rw [pushed, InputQueue.push, accepting, if_neg Bool.false_ne_true, dif_pos full, resume_lost]
    rfl
  | invalidate =>
    cases step
    rfl
  | pop => cases loses

theorem Announced.step (announced : Announced later before)
    (step : console.step before call after) :
    Announced (later ++ [⟨before, call, after⟩]) after := by
  rw [Announced, results_concat]
  rcases announced with ⟨silent, lost⟩ | first
  · rw [silent]
    cases call with
    | push byte =>
      cases step
      exact .inl ⟨rfl, push_lost lost byte⟩
    | invalidate =>
      cases step
      exact .inl ⟨rfl, rfl⟩
    | pop result =>
      have taken : before.pop = (result, after) := step
      rw [InputQueue.pop, if_pos lost] at taken
      cases taken
      exact .inr rfl
  · right
    rw [head?_append, first]
    rfl

theorem announced_of_run (run : Run console start moves last)
    {earlier : List (Move InputQueue Call)} {loss : Move InputQueue Call}
    (split : moves = earlier ++ loss :: later) (loses : Loses loss) : Announced later last := by
  induction run generalizing later with
  | nil => cases earlier <;> cases split
  | @snoc before after moves call run step ih =>
    rcases eq_nil_or_concat later with rfl | ⟨_, final, rfl⟩
    · obtain ⟨-, same⟩ := append_inj' split rfl
      cases same
      exact .inl ⟨rfl, lost_of_loses step loses⟩
    · rw [concat_eq_append, ← cons_append, ← append_assoc] at split
      obtain ⟨same, final⟩ := append_inj' split rfl
      cases final
      rw [concat_eq_append]
      exact (ih same).step step

/-- Nothing was lost: what was pushed is what was popped followed by what the queue holds. -/
structure Lossless (moves : List (Move InputQueue Call)) (last : InputQueue) : Prop where
  announced : last.lost = false
  accepting : last.discarding = false
  whole : ∃ read, popped moves = read.map InputEvent.byte ∧
    pushed moves = read ++ last.bytes.contents

theorem lossless_of_run (run : Run console .new moves last)
    (lossless : ∀ move ∈ moves, ¬ Loses move) : Lossless moves last := by
  induction run with
  | nil => exact ⟨rfl, rfl, [], rfl, rfl⟩
  | @snoc before after moves call _ step ih =>
    obtain ⟨announced, accepting, read, sofar, whole⟩ :=
      ih (fun move member => lossless move (mem_append_left _ member))
    have harmless := lossless _ (mem_append_right moves (mem_singleton.mpr rfl))
    cases call with
    | push byte =>
      have room : before.bytes.len ≠ queueSize := fun full => harmless ⟨accepting, full⟩
      have stored : after = before.push byte := step
      rw [InputQueue.push, accepting, if_neg Bool.false_ne_true, dif_neg room] at stored
      subst stored
      refine ⟨announced, rfl, read, ?_, ?_⟩
      · rw [popped_concat, sofar]
        exact append_nil _
      · rw [pushed_concat, whole, Ring.contents_push]
        exact append_assoc ..
    | invalidate => exact absurd trivial harmless
    | pop result =>
      have taken : before.pop = (result, after) := step
      have stream : pushed (moves ++ [⟨before, .pop result, after⟩]) = pushed moves := by
        rw [pushed_concat]
        exact append_nil _
      rcases pop_cases before with ⟨lost, _⟩ | ⟨_, _, nothing⟩ | ⟨byte, _, _, holds, some⟩
      · rw [announced] at lost
        cases lost
      · rw [nothing] at taken
        cases taken
        refine ⟨announced, accepting, read, ?_, stream.trans whole⟩
        rw [popped_concat, sofar]
        exact append_nil _
      · rw [some] at taken
        cases taken
        refine ⟨announced, accepting, read ++ [byte], ?_, ?_⟩
        · rw [popped_concat, sofar, map_append]
          rfl
        · rw [stream, whole, holds]
          exact (append_cons ..)

end Histories

/-! ### No spliced command -/

/-- What a reader can rely on. -/
structure Unspliced (moves : List (Move InputQueue Call)) : Prop where
  /-- The bytes between two losses are one piece of what was pushed, from the start of a
  line. -/
  aligned : ∀ piece ∈ (heard (popped moves)).pieces, Aligned (pushed moves) piece
  /-- No byte is read twice, and none before an older one. -/
  ordered : Lines (heard (popped moves)).pieces (pushed moves)
  /-- The first pop after a loss announces it. -/
  announced : ∀ earlier loss later, moves = earlier ++ loss :: later → Loses loss →
    results later = [] ∨ (results later).head? = some (some .lost)
  /-- While nothing is lost, each pop returns the next byte of the stream. -/
  complete : ∀ earlier move later result, moves = earlier ++ move :: later →
    (∀ other ∈ earlier, ¬ Loses other) → move.label = .pop result →
      result = (pushed earlier)[(popped earlier).length]?.map InputEvent.byte

theorem pop_of_lossless {moves : List (Move InputQueue Call)} {queue next : InputQueue}
    {result : Option InputEvent} (lossless : Lossless moves queue)
    (taken : queue.pop = (result, next)) :
    result = (pushed moves)[(popped moves).length]?.map InputEvent.byte := by
  obtain ⟨announced, -, _, sofar, whole⟩ := lossless
  rw [sofar, whole, length_map, getElem?_append_right le_rfl, Nat.sub_self]
  rcases pop_cases queue with ⟨lost, _⟩ | ⟨_, empty, nothing⟩ | ⟨_, _, _, holds, some⟩
  · rw [announced] at lost
    cases lost
  · rw [nothing] at taken
    cases taken
    rw [empty]
    rfl
  · rw [some] at taken
    cases taken
    rw [holds]
    rfl

theorem unspliced_of_run {moves : List (Move InputQueue Call)} {last : InputQueue}
    (run : Run console .new moves last) : Unspliced moves where
  aligned := (tracks_of_run run).lines.aligned
  ordered := (tracks_of_run run).lines
  announced := by
    intro _ _ _ split loses
    rcases announced_of_run run split loses with ⟨silent, _⟩ | first
    · exact .inl silent
    · exact .inr first
  complete := by
    intro _ _ _ _ split lossless popping
    rw [split] at run
    obtain ⟨earlierRun, step⟩ := run.split
    rw [popping] at step
    exact pop_of_lossless (lossless_of_run earlierRun lossless) step

/-- A line that is cut off is lost to its end, and the reader is told before the next line. -/
theorem unspliced_lostLine : ∃ moves last, Run console .new moves last ∧
    pushed moves = [68, 69, 10, 88] ∧ popped moves = [.byte 68, .lost, .byte 88] ∧
    Unspliced moves := by
  have cut := run_invalidate (run_pop (run_push (.nil .new) 68))
  have typed := run_push (run_push (run_push cut 69) 10) 88
  have read := run_pop (run_pop typed)
  exact ⟨_, _, read, rfl, rfl, unspliced_of_run read⟩

end Mmurtl.Keyboard
