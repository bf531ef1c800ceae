import MiniControl.Buffers.Ring

/-!
# The output history of a terminal session

Every chunk of output becomes a frame with the next sequence number. A ring keeps
the last 256 frames. The history records a list of chunks: a snapshot returns the
chunks after a given number, as far as they are still kept.
-/

namespace MiniControl.Terminal

open Buffers

/-- A chunk of output. -/
abbrev Payload := List UInt8

/-- `terminalHistoryFrame`; every frame is a binary message. -/
structure Frame where
  seq : ℕ
  payload : Payload
  deriving DecidableEq

/-- `terminalHistoryFrames`. -/
def terminalHistoryFrames : ℕ := 256

/-- The fields `history`, `historyLen` and `nextSeq` of a session. -/
structure History where
  ring : Option (Buffers.Ring Frame)
  historyLen : ℕ
  nextSeq : ℕ

namespace History

/-- The history of a new session. -/
def empty : History := ⟨none, 0, 0⟩

/-- `appendFrameLocked`. -/
def appendFrameLocked (h : History) (frame : Frame) : History :=
  { h with
    ring := some ((h.ring.getD (.new terminalHistoryFrames)).put frame).next
    historyLen :=
      if h.historyLen < terminalHistoryFrames then h.historyLen + 1 else h.historyLen }

/-- The part of `publishBinary` that numbers and keeps a chunk. -/
def publish (h : History) (payload : Payload) : History :=
  { h with nextSeq := h.nextSeq + 1 }.appendFrameLocked ⟨h.nextSeq + 1, payload⟩

/-- `snapshotFramesAfter`. -/
def snapshotFramesAfter (h : History) (afterSeq : ℕ) : List Frame × ℕ :=
  if h.historyLen = 0 then ([], h.nextSeq)
  else
    match h.ring with
    | none => ([], h.nextSeq)
    | some ring => ((ring.back h.historyLen).collect (afterSeq < ·.seq) h.historyLen, h.nextSeq)

end History

/-- The frames of chunks that are numbered after `n`. -/
def framesFrom (n : ℕ) : List Payload → List Frame
  | [] => []
  | payload :: payloads => ⟨n + 1, payload⟩ :: framesFrom (n + 1) payloads

/-- There is one frame for each chunk. -/
@[simp]
theorem length_framesFrom (n : ℕ) (payloads : List Payload) :
    (framesFrom n payloads).length = payloads.length := by
  induction payloads generalizing n with
  | nil => rfl
  | cons payload payloads ih => simp [framesFrom, ih]

/-- The frames carry the chunks. -/
@[simp]
theorem map_payload_framesFrom (n : ℕ) (payloads : List Payload) :
    (framesFrom n payloads).map Frame.payload = payloads := by
  induction payloads generalizing n with
  | nil => rfl
  | cons payload payloads ih => simp [framesFrom, ih]

/-- The numbers of the frames are consecutive. -/
theorem map_seq_framesFrom (n : ℕ) (payloads : List Payload) :
    (framesFrom n payloads).map Frame.seq = List.range' (n + 1) payloads.length := by
  induction payloads generalizing n with
  | nil => rfl
  | cons payload payloads ih =>
    rw [framesFrom, List.map_cons, ih, List.length_cons, List.range'_succ]

/-- A frame has the chunk of its number. -/
theorem payload_of_mem_framesFrom {n : ℕ} {payloads : List Payload} {frame : Frame}
    (h : frame ∈ framesFrom n payloads) :
    ∃ k, frame.seq = n + k + 1 ∧ payloads[k]? = some frame.payload := by
  induction payloads generalizing n with
  | nil => cases h
  | cons payload payloads ih =>
    rcases List.mem_cons.mp h with rfl | hrest
    · exact ⟨0, rfl, rfl⟩
    · obtain ⟨k, hseq, hpayload⟩ := ih hrest
      refine ⟨k + 1, ?_, by simpa using hpayload⟩
      omega

/-- A chunk that follows gets the next number. -/
theorem framesFrom_append (n : ℕ) (payloads : List Payload) (payload : Payload) :
    framesFrom n (payloads ++ [payload]) =
      framesFrom n payloads ++ [⟨n + payloads.length + 1, payload⟩] := by
  induction payloads generalizing n with
  | nil => rfl
  | cons first payloads ih =>
    simp only [List.cons_append, framesFrom, ih, List.length_cons]
    congr 4
    omega

/-- Later frames are the frames of later chunks. -/
theorem drop_framesFrom (n k : ℕ) (payloads : List Payload) :
    (framesFrom n payloads).drop k = framesFrom (n + k) (payloads.drop k) := by
  induction payloads generalizing n k with
  | nil => simp [framesFrom]
  | cons payload payloads ih =>
    cases k with
    | zero => rfl
    | succ k =>
      rw [framesFrom, List.drop_succ_cons, List.drop_succ_cons, ih]
      congr 1
      omega

/-- The frames with numbers above `a` are the last ones. -/
theorem filter_framesFrom (n a : ℕ) (payloads : List Payload) :
    (framesFrom n payloads).filter (a < ·.seq) = (framesFrom n payloads).drop (a - n) := by
  induction payloads generalizing n with
  | nil => simp [framesFrom]
  | cons payload payloads ih =>
    by_cases ha : a < n + 1
    · rw [show a - n = 0 by omega, List.drop_zero, framesFrom,
        List.filter_cons_of_pos (by simpa using ha), ih, show a - (n + 1) = 0 by omega,
        List.drop_zero]
    · rw [framesFrom, List.filter_cons_of_neg (by simpa using ha), ih,
        show a - n = (a - (n + 1)) + 1 by omega, List.drop_succ_cons]

/-- Of the frames that are kept, those with numbers above `a`. -/
theorem filter_drop_framesFrom (a k : ℕ) (payloads : List Payload) :
    ((framesFrom 0 payloads).drop k).filter (a < ·.seq) =
      (framesFrom 0 payloads).drop (max a k) := by
  rw [drop_framesFrom, filter_framesFrom, ← drop_framesFrom, List.drop_drop]
  congr 1
  omega

/-- The history records a list of chunks: it has numbered all of them and keeps
the last ones. -/
structure History.Records (h : History) (published : List Payload) : Prop where
  nextSeq : h.nextSeq = published.length
  historyLen : h.historyLen = min published.length terminalHistoryFrames
  unused : h.ring = none → published = []
  ring : (h.ring.getD (.new terminalHistoryFrames)).Holds terminalHistoryFrames
    ((framesFrom 0 published).rtake terminalHistoryFrames)

namespace History.Records

variable {h : History} {published : List Payload}

/-- A new session records nothing. -/
theorem empty : History.empty.Records [] := ⟨rfl, rfl, fun _ => rfl, Buffers.Ring.holds_new _⟩

/-- Publishing records one more chunk. -/
theorem publish (hrec : h.Records published) (payload : Payload) :
    (h.publish payload).Records (published ++ [payload]) := by
  obtain ⟨hseq, hlen, _, hring⟩ := hrec
  refine ⟨?_, ?_, fun hnone => ?_, ?_⟩
  · simp [History.publish, History.appendFrameLocked, hseq]
  · simp only [History.publish, History.appendFrameLocked, hlen, List.length_append,
      List.length_singleton]
    split_ifs <;> omega
  · cases hnone
  · have hpush := hring.push (by decide) ⟨h.nextSeq + 1, payload⟩
    rw [rtake_rtake_append] at hpush
    rw [framesFrom_append, Nat.zero_add, ← hseq]
    exact hpush

/-- A snapshot returns the frames above the given number that are still kept. -/
theorem snapshotFramesAfter (hrec : h.Records published) (afterSeq : ℕ) :
    h.snapshotFramesAfter afterSeq =
      ((framesFrom 0 published).drop (max afterSeq (published.length - terminalHistoryFrames)),
        published.length) := by
  obtain ⟨hseq, hlen, hunused, hring⟩ := hrec
  have hempty : published = [] → h.snapshotFramesAfter afterSeq = ([], 0) := by
    rintro rfl
    rw [History.snapshotFramesAfter, if_pos (by simp [hlen]), hseq]
    rfl
  by_cases hnone : published = []
  · rw [hempty hnone, hnone]
    simp [framesFrom]
  · have hpos : h.historyLen ≠ 0 := by
      rw [hlen, terminalHistoryFrames]
      have := List.length_pos_of_ne_nil hnone
      omega
    rw [History.snapshotFramesAfter, if_neg hpos, hseq]
    cases hr : h.ring with
    | none => exact absurd (hunused hr) hnone
    | some ring =>
      rw [hr, Option.getD_some, List.rtake, length_framesFrom] at hring
      have hlength : h.historyLen = ((framesFrom 0 published).drop
          (published.length - terminalHistoryFrames)).length := by
        rw [hlen, List.length_drop, length_framesFrom]
        omega
      dsimp only
      rw [hlength, hring.collect, filter_drop_framesFrom]

/-- The chunks of a snapshot. -/
theorem payloads_snapshot (hrec : h.Records published) (afterSeq : ℕ) :
    (h.snapshotFramesAfter afterSeq).1.map Frame.payload =
      published.drop (max afterSeq (published.length - terminalHistoryFrames)) := by
  rw [hrec.snapshotFramesAfter, drop_framesFrom, map_payload_framesFrom]

/-- A snapshot is up to date. -/
theorem latest_snapshot (hrec : h.Records published) (afterSeq : ℕ) :
    (h.snapshotFramesAfter afterSeq).2 = published.length := by
  rw [hrec.snapshotFramesAfter]

end History.Records

end MiniControl.Terminal
