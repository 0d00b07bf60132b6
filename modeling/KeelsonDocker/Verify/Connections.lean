import KeelsonDocker.LogsFollower
import KeelsonDocker.Verify.Host

/-!
# Lines of one connection

The follower keeps one `LineBuffer` for all its connections. However a connection's bytes are cut into
frames, the chunks are those of its stream behind what the buffer held (`readFrames_eq`). A connection that
raises leaves its unfinished line there, and the next one's first bytes are glued to it (`Glues`); in a run
where that never happens every chunk is a piece of one connection's stream (`pieces_of_followed`).
-/

namespace KeelsonDocker

/-- Splitting from where the last piece begins. -/
theorem splitOnP_append (p : α → Bool) (as bs : List α) : (as ++ bs).splitOnP p =
    (as.splitOnP p).dropLast ++ ((as.splitOnP p).getLastD [] ++ bs).splitOnP p := by
  induction as with
  | nil => simp
  | cons a as ih =>
    obtain ⟨piece, pieces, hpieces⟩ := List.exists_cons_of_ne_nil (List.splitOnP_ne_nil p as)
    rw [List.cons_append, List.splitOnP_cons_eq_if_modifyHead, List.splitOnP_cons_eq_if_modifyHead, ih,
      hpieces]
    by_cases ha : p a = true
    · simp [ha]
    · cases pieces with
      | nil => simp [ha, List.splitOnP_cons_eq_if_modifyHead]
      | cons piece' pieces => simp [ha]

theorem of_mem_splitOnP {p : α → Bool} {as piece : List α} (h : piece ∈ as.splitOnP p) : ∀ x ∈ piece, p x = false := by
  induction as generalizing piece with
  | nil =>
    rw [List.splitOnP_nil, List.mem_singleton] at h
    rw [h]
    nofun
  | cons a as ih =>
    obtain ⟨first, pieces, hpieces⟩ := List.exists_cons_of_ne_nil (List.splitOnP_ne_nil p as)
    rw [hpieces] at ih
    rw [List.splitOnP_cons_eq_if_modifyHead, hpieces] at h
    split at h
    · rcases List.mem_cons.mp h with rfl | h
      · nofun
      · exact ih h
    · rename_i ha
      rcases List.mem_cons.mp h with rfl | h
      · intro x hx
        rcases List.mem_cons.mp hx with rfl | hx
        · exact Bool.not_eq_true _ ▸ ha
        · exact ih List.mem_cons_self x hx
      · exact ih (List.mem_cons_of_mem _ h)

namespace LineBuffer

variable {α : Type} {byte : α → UInt8}

/-- The chunks do not depend on where a stream is cut. -/
theorem feed_append (buffer : LineBuffer α) (as bs : List α) : buffer.feed byte (as ++ bs) =
    let (chunks, buffer) := buffer.feed byte as
    let (chunks', buffer) := buffer.feed byte bs
    (chunks ++ chunks', buffer) := by
  have hne := List.splitOnP_ne_nil (byte · == newline)
  simp only [feed, ← List.append_assoc]
  rw [splitOnP_append _ (buffer.remainder ++ as) bs, List.dropLast_append_of_ne_nil (hne _)]
  simp [List.getLastD_eq_getLast?, List.getLast?_append_of_ne_nil _ (hne _)]

theorem mem_splitOnP_of_feed (buffer : LineBuffer α) (frame : List α) :
    (buffer.feed byte frame).2.remainder ∈
      (buffer.remainder ++ frame).splitOnP (byte · == newline) := by
  have hne := List.splitOnP_ne_nil (byte · == newline) (buffer.remainder ++ frame)
  simp only [feed, List.getLastD_eq_getLast?, List.getLast?_eq_some_getLast hne, Option.getD_some]
  exact List.getLast_mem hne

theorem open_feed (buffer : LineBuffer α) (frame : List α) :
    Unbroken byte (buffer.feed byte frame).2.remainder := fun x hx =>
  ne_of_beq_false (of_mem_splitOnP (mem_splitOnP_of_feed buffer frame) x hx)

/-- The chunks are pieces of the stream, and what the buffer held, if nothing is glued to it. -/
theorem pieces_of_feed {buffer : LineBuffer α} {stream : List α} (hopen : Unbroken byte buffer.remainder)
    (hglue : buffer.remainder ≠ [] → ∀ x ∈ stream.head?, byte x = newline)
    (h : chunk ∈ (buffer.feed byte stream).1 ∨ chunk = (buffer.feed byte stream).2.remainder) :
    chunk ∈ stream.splitOnP (byte · == newline) ∨ chunk = buffer.remainder ∧ chunk ≠ [] := by
  have hmem : chunk ∈ (buffer.remainder ++ stream).splitOnP (byte · == newline) := by
    rcases h with h | rfl
    · exact List.mem_of_mem_dropLast h
    · exact mem_splitOnP_of_feed buffer stream
  by_cases hnil : buffer.remainder = []
  · rw [hnil, List.nil_append] at hmem
    exact .inl hmem
  · cases stream with
    | nil =>
      rw [List.append_nil, hopen.splitOnP, List.mem_singleton] at hmem
      exact .inr ⟨hmem, hmem ▸ hnil⟩
    | cons x stream =>
      have hx : (byte x == newline) = true := beq_iff_eq.mpr (hglue hnil x rfl)
      rw [List.splitOnP_append_cons (p := (byte · == newline)) _ _ hx, hopen.splitOnP] at hmem
      rcases List.mem_append.mp hmem with hmem | hmem
      · rw [List.mem_singleton] at hmem
        exact .inr ⟨hmem, hmem ▸ hnil⟩
      · rw [List.splitOnP_cons_eq_if_modifyHead, if_pos hx]
        exact .inl (List.mem_cons_of_mem _ hmem)

end LineBuffer

namespace LogFollower

variable {α : Type} {byte : α → UInt8}

/-! ### Rounds -/

/-- A line, or the final piece, of what came over one of the rounds' connections. -/
def Piece (byte : α → UInt8) (rounds : List (Round α)) (chunk : List α) : Prop :=
  ∃ round ∈ rounds, chunk ∈ round.stream.splitOnP (byte · == newline)

/-- The connection's first byte goes on with an unfinished line of an earlier one. -/
def Glues (byte : α → UInt8) (f : Following α) (round : Round α) : Prop :=
  f.buffer.remainder ≠ [] ∧ ∃ x ∈ round.stream.head?, byte x ≠ newline

section

variable (self : LogFollower) (name : String) (f : Following α)

theorem frame_eq (clock : Nat → ℚ) (bytes : List α) :
    (self.frame byte name clock bytes f).emitted = f.emitted ++ (f.buffer.feed byte bytes).1 ∧
    (self.frame byte name clock bytes f).buffer = (f.buffer.feed byte bytes).2 :=
  takeAll_eq byte self name clock _ _

/-- The loop over the frames hands on what its bytes would give in one frame. -/
theorem readFrames_eq (hopen : Unbroken byte f.buffer.remainder) (frames : List (List α × (Nat → ℚ))) :
    (self.readFrames byte name frames f).emitted =
      f.emitted ++ (f.buffer.feed byte (frames.flatMap Prod.fst)).1 ∧
    (self.readFrames byte name frames f).buffer = (f.buffer.feed byte (frames.flatMap Prod.fst)).2 := by
  induction frames generalizing f with
  | nil => simp [readFrames, LineBuffer.feed_nil hopen]
  | cons frame frames ih =>
    obtain ⟨bytes, clock⟩ := frame
    obtain ⟨hemitted, hbuffer⟩ := frame_eq self name f clock bytes
    obtain ⟨hrest, hlast⟩ := ih (self.frame byte name clock bytes f)
      (hbuffer ▸ LineBuffer.open_feed f.buffer bytes)
    rw [List.flatMap_cons, LineBuffer.feed_append]
    rw [hemitted, hbuffer, List.append_assoc] at hrest
    rw [hbuffer] at hlast
    exact ⟨hrest, hlast⟩

theorem finish_eq (clock : Nat → ℚ) :
    (∀ chunk ∈ (self.finish byte name clock f).emitted,
      chunk ∈ f.emitted ∨ chunk = f.buffer.remainder ∧ chunk ≠ []) ∧
    (self.finish byte name clock f).buffer.remainder = [] := by
  obtain ⟨hemitted, hbuffer⟩ := takeAll_eq byte self name clock (f.buffer.flush byte).1
    { f with buffer := (f.buffer.flush byte).2 }
  refine ⟨fun chunk hchunk => ?_, by rw [finish, hbuffer]; rfl⟩
  rw [finish, hemitted] at hchunk
  rcases List.mem_append.mp hchunk with h | h
  · exact .inl h
  · unfold LineBuffer.flush at h
    dsimp only at h
    split at h
    · cases h
    · rename_i hblank
      rw [List.mem_singleton.mp h]
      refine .inr ⟨rfl, fun hnil => hblank ?_⟩
      rw [hnil]
      rfl

end

/-- All chunks so far, and what the buffer holds, are pieces of one connection's stream each. -/
structure Apart (byte : α → UInt8) (rounds : List (Round α)) (f : Following α) : Prop where
  emitted : ∀ chunk ∈ f.emitted, Piece byte rounds chunk
  remainder : f.buffer.remainder ≠ [] → Piece byte rounds f.buffer.remainder
  opened : Unbroken byte f.buffer.remainder

section

variable {self : LogFollower} {name : String} {f : Following α} {rounds : List (Round α)}

theorem Piece.mono {chunk : List α} (h : Piece byte rounds chunk) (round : Round α) :
    Piece byte (rounds ++ [round]) chunk := by
  obtain ⟨earlier, hmem, hchunk⟩ := h
  exact ⟨earlier, List.mem_append_left _ hmem, hchunk⟩

theorem Apart.mono (h : Apart byte rounds f) (round : Round α) : Apart byte (rounds ++ [round]) f :=
  ⟨fun chunk hc => (h.emitted chunk hc).mono round, fun hr => (h.remainder hr).mono round, h.opened⟩

theorem Apart.readFrames (h : Apart byte rounds f) {round : Round α}
    {frames : List (List α × (Nat → ℚ))} (hstream : round.stream = frames.flatMap Prod.fst)
    (hglue : ¬ Glues byte f round) :
    Apart byte (rounds ++ [round]) (self.readFrames byte name frames f) := by
  obtain ⟨hemitted, hbuffer⟩ := readFrames_eq self name f h.opened frames
  have hpieces (chunk : List α) (hc : chunk ∈ (f.buffer.feed byte (frames.flatMap Prod.fst)).1 ∨
      chunk = (f.buffer.feed byte (frames.flatMap Prod.fst)).2.remainder) :
      Piece byte (rounds ++ [round]) chunk := by
    rw [← hstream] at hc
    rcases LineBuffer.pieces_of_feed h.opened (fun hr x hx => by_contra fun hne => hglue ⟨hr, x, hx, hne⟩)
      hc with hc | ⟨rfl, hne⟩
    · exact ⟨round, by simp, hc⟩
    · exact (h.remainder hne).mono round
  refine ⟨fun chunk hc => ?_, fun _ => ?_, ?_⟩
  · rw [hemitted] at hc
    rcases List.mem_append.mp hc with hc | hc
    · exact (h.emitted chunk hc).mono round
    · exact hpieces chunk (.inl hc)
  · rw [hbuffer]
    exact hpieces _ (.inr rfl)
  · rw [hbuffer]
    exact LineBuffer.open_feed _ _

theorem Apart.finish (h : Apart byte rounds f) (clock : Nat → ℚ) :
    Apart byte rounds (self.finish byte name clock f) := by
  obtain ⟨hemitted, hremainder⟩ := finish_eq self name f clock
  refine ⟨fun chunk hc => ?_, fun hne => absurd hremainder hne, ?_⟩
  · rcases hemitted chunk hc with hc | ⟨rfl, hne⟩
    · exact h.emitted chunk hc
    · exact h.remainder hne
  · rw [hremainder]
    nofun

/-- One round keeps the connections apart, if it does not glue. -/
theorem Apart.round (h : Apart byte rounds f) {round : Round α} (hglue : ¬ Glues byte f round) :
    Apart byte (rounds ++ [round]) (self.round byte name f round) := by
  cases round with
  | refused => exact h.mono _
  | drained frames clock => exact (h.readFrames rfl hglue).finish clock
  | broken frames => exact h.readFrames rfl hglue

end

/-- Every chunk of a run whose connections never go on with an earlier one's line is a piece of one
connection's stream. -/
theorem pieces_of_followed (self : LogFollower) (name : String) (rounds : List (Round α))
    (hglue : ∀ before round after, rounds = before ++ round :: after →
      ¬ Glues byte (self.follow byte name before) round) :
    ∀ chunk ∈ (self.follow byte name rounds).emitted, Piece byte rounds chunk := by
  have happart : Apart byte rounds (self.follow byte name rounds) := by
    induction rounds using List.reverseRecOn with
    | nil => exact ⟨nofun, fun hne => absurd rfl hne, nofun⟩
    | append_singleton rounds round ih =>
      have hbefore := ih fun before r after heq =>
        hglue before r (after ++ [round]) (by rw [heq, List.append_assoc, List.cons_append])
      rw [follow, List.foldl_concat]
      exact hbefore.round (hglue rounds round [] rfl)
  exact happart.emitted

/-! ### A line glued to another -/

/-- Every chunk comes from one connection, whatever happens to them. -/
def KeepsApart : Prop :=
  ∀ (self : LogFollower) (name : String) (rounds : List (Round UInt8)),
    ∀ chunk ∈ (self.follow id name rounds).emitted, Piece id rounds chunk

namespace Glued

def follower : LogFollower where
  pb := wire
  seconds ns := ns / 1000000000

/-- `fix 1` and a newline, and of `fix 2` only three bytes before the connection is reset; the next one
brings `up` and a newline. -/
def rounds : List (Round UInt8) :=
  [.broken [([102, 105, 120, 32, 49, 10, 102, 105, 120], fun _ => 100)],
   .drained [([117, 112, 10], fun _ => 102)] fun _ => 103]

theorem not_keepsApart : ¬ KeepsApart := by
  intro h
  have hchunk : [102, 105, 120, 117, 112] ∈ (follower.follow id "gps" rounds).emitted := by
    decide +kernel
  obtain ⟨round, hround, hpiece⟩ := h follower "gps" rounds _ hchunk
  revert round
  decide +kernel

/-- The first connection breaks off between two lines instead. -/
def whole : List (Round UInt8) :=
  [.broken [([102, 105, 120, 10], fun _ => 100)], .drained [([117, 112, 10], fun _ => 102)] fun _ => 103]

theorem pieces_of_whole : Piece id whole [117, 112] := by
  refine pieces_of_followed follower "gps" whole (fun before round after heq => ?_) _ (by decide +kernel)
  rintro ⟨hne, -⟩
  apply hne
  match before with
  | [] => rfl
  | [first] =>
    obtain ⟨rfl, -⟩ := List.cons.inj heq
    decide +kernel
  | _ :: _ :: before => simp [whole] at heq

end Glued

end LogFollower

end KeelsonDocker
