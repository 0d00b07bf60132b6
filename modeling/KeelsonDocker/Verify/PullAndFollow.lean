import KeelsonDocker.Verify.Connections

/-!
# Pulling a log and following it

The same bytes give the same lines, whether they are parsed at once, as the reply to `logs` does, or come
in frames through a `LineBuffer`, as they do for a follower (`follow_eq_pull`).
-/

namespace KeelsonDocker

namespace LineBuffer

variable {α γ : Type} {byte : α → UInt8}

/-- One frame fed after the other: the chunks, and the buffer then. -/
def feedAll (byte : α → UInt8) (buffer : LineBuffer α) :
    List (List α) → List (List α) × LineBuffer α
  | [] => ([], buffer)
  | frame :: frames =>
    let (chunks, buffer) := buffer.feed byte frame
    let (chunks', buffer) := buffer.feedAll byte frames
    (chunks ++ chunks', buffer)

/-- The frames might as well have been one. -/
theorem feedAll_eq {buffer : LineBuffer α} (hopen : Unbroken byte buffer.remainder) (frames : List (List α)) :
    buffer.feedAll byte frames = buffer.feed byte frames.flatten := by
  induction frames generalizing buffer with
  | nil => rw [feedAll, List.flatten_nil, feed_nil hopen]
  | cons frame frames ih =>
    have hrest := ih (open_feed buffer frame)
    simp only [feedAll, hrest, List.flatten_cons, feed_append]

/-- The chunks and what is held back are the pieces between the newlines. -/
theorem feed_concat_remainder (buffer : LineBuffer α) (bytes : List α) :
    (buffer.feed byte bytes).1 ++ [(buffer.feed byte bytes).2.remainder] =
      (buffer.remainder ++ bytes).splitOnP (byte · == newline) := by
  have hne := List.splitOnP_ne_nil (byte · == newline) (buffer.remainder ++ bytes)
  simp only [feed, List.getLastD_eq_getLast?, List.getLast?_eq_some_getLast hne, Option.getD_some]
  exact List.dropLast_concat_getLast hne

/-- For a parser that finds nothing in a blank chunk, the flush is what was held back. -/
theorem filterMap_flush {parse : List α → Option γ} (buffer : LineBuffer α)
    (hblank : ∀ chunk, chunk.all (isSpaceByte <| byte ·) = true → parse chunk = none) :
    (buffer.flush byte).1.filterMap parse = [buffer.remainder].filterMap parse := by
  unfold flush
  split
  · rename_i hall
    simp [hblank _ hall]
  · rfl

end LineBuffer

theorem parseLogLine_blank {pb : Protobuf} {stream : LogStream} {chunk : Bytes}
    (h : chunk.all isSpaceByte = true) : parseLogLine pb chunk stream = none := by
  rw [parseLogLine, if_pos h]

/-- Nothing at all is the one blank piece that an empty byte string is split into. -/
theorem parseLogStream_eq (pb : Protobuf) (raw : Bytes) (stream : LogStream) :
    parseLogStream pb raw stream = (raw.splitOn newline).filterMap (parseLogLine pb · stream) := by
  cases raw with
  | nil => rfl
  | cons b raw => rfl

/-- **The follow path parses as the pull path does**, however the bytes are cut into frames, and holds
nothing back. -/
theorem follow_eq_pull (pb : Protobuf) (stream : LogStream) (frames : List Bytes) :
    let fed := ({} : LineBuffer UInt8).feedAll id frames
    let flushed := fed.2.flush id
    (fed.1 ++ flushed.1).filterMap (parseLogLine pb · stream) =
        parseLogStream pb frames.flatten stream ∧
      flushed.2.remainder = [] := by
  intro fed flushed
  have hopen : Unbroken id ({} : LineBuffer UInt8).remainder := fun _ hx => nomatch hx
  have hfed : fed = LineBuffer.feed id {} frames.flatten := LineBuffer.feedAll_eq hopen frames
  have hflush : flushed.1.filterMap (parseLogLine pb · stream) =
      [fed.2.remainder].filterMap (parseLogLine pb · stream) :=
    LineBuffer.filterMap_flush fed.2 fun _ hblank => parseLogLine_blank hblank
  have hpieces : fed.1 ++ [fed.2.remainder] = frames.flatten.splitOn newline := by
    rw [hfed]
    exact LineBuffer.feed_concat_remainder {} frames.flatten
  refine ⟨?_, rfl⟩
  calc (fed.1 ++ flushed.1).filterMap (parseLogLine pb · stream)
      = (fed.1 ++ [fed.2.remainder]).filterMap (parseLogLine pb · stream) := by
        rw [List.filterMap_append, hflush, ← List.filterMap_append]
    _ = parseLogStream pb frames.flatten stream := by
        rw [hpieces, parseLogStream_eq]

end KeelsonDocker
