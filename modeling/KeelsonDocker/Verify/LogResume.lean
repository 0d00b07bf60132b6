import KeelsonDocker.FollowRun
import KeelsonDocker.Theory.Gapless
import KeelsonDocker.Verify.Host

/-!
# Resuming a log

What is handed to `_emit` is gapless as long as every connection resumes: the lines not handed on yet are in
its replay, and the first line it sends is not one of them when the buffer still holds a piece that this
line will be glued to (`Resumes`, `noGap_of_reached`). Every connection after the first needs that; a follow
tail of 0 gives it only if nothing was written in between.
-/

namespace KeelsonDocker

open Gapless

/-- The chunk is the line number `i`, whole. -/
def IsLine (i : Nat) (chunk : List LogByte) : Prop := ∃ line : LoggedLine, chunk = line.bytes i

/-! ### The bytes of a line -/

theorem LoggedLine.mem_bytes {line : LoggedLine} {i : Nat} {x : LogByte} (h : x ∈ line.bytes i) :
    x.line = i ∧ x.byte ≠ newline := by
  obtain ⟨⟨b, k⟩, hb, rfl⟩ := List.mem_map.mp h
  have hmem : b ∈ line.raw := List.fst_mem_of_mem_zipIdx hb
  exact ⟨rfl, fun hn => line.noNewline (hn ▸ hmem)⟩

theorem LoggedLine.getElem?_bytes {line : LoggedLine} {i k : Nat} {x : LogByte}
    (h : (line.bytes i)[k]? = some x) : x.offset = k := by
  simp only [bytes, List.getElem?_map, List.getElem?_zipIdx, Option.map_eq_some_iff] at h
  obtain ⟨_, ⟨b, -, rfl⟩, rfl⟩ := h
  simp

theorem LoggedLine.bytes_ne_nil (line : LoggedLine) (i : Nat) : line.bytes i ≠ [] := by
  simp [bytes, line.ne_nil]

theorem IsLine.eq {i j : Nat} {chunk : List LogByte} (hi : IsLine i chunk) (hj : IsLine j chunk) :
    i = j := by
  obtain ⟨line, rfl⟩ := hi
  obtain ⟨line', h⟩ := hj
  obtain ⟨x, hx⟩ := List.exists_mem_of_ne_nil _ (line.bytes_ne_nil i)
  rw [← (LoggedLine.mem_bytes hx).1, (LoggedLine.mem_bytes (h ▸ hx)).1]

theorem not_isLine_nil (j : Nat) : ¬ IsLine j [] := by
  rintro ⟨line, h⟩
  exact line.bytes_ne_nil j h.symm

/-- A nonempty beginning of the line `i` is no whole line of another number. -/
theorem IsLine.eq_of_prefix {line : LoggedLine} {i j : Nat} {p : List LogByte} (h : IsLine j p)
    (hp : p <+: line.bytes i) : j = i := by
  obtain ⟨line', rfl⟩ := h
  obtain ⟨x, hx⟩ := List.exists_mem_of_ne_nil _ (line'.bytes_ne_nil j)
  rw [← (LoggedLine.mem_bytes hx).1, (LoggedLine.mem_bytes (hp.subset hx)).1]

/-- What is glued to the beginning of a line is no line. -/
theorem not_isLine_glued {line : LoggedLine} {i j : Nat} {r q : List LogByte} (hr : r ≠ [])
    (hq : q ≠ []) (hpre : q <+: line.bytes i) : ¬ IsLine j (r ++ q) := by
  rintro ⟨line', h⟩
  obtain ⟨y, q', rfl⟩ := List.exists_cons_of_ne_nil hq
  obtain ⟨t, ht⟩ := hpre
  have hzero : y.offset = 0 := line.getElem?_bytes (i := i) (by rw [← ht]; rfl)
  have hlen : y.offset = r.length := line'.getElem?_bytes (i := j) (by rw [← h]; simp)
  exact hr (List.length_eq_zero_iff.mp (hlen.symm.trans hzero))

/-! ### Pieces between newlines -/

theorem unbroken_bytes (line : LoggedLine) (i : Nat) : Unbroken LogByte.byte (line.bytes i) :=
  fun _ hx => (LoggedLine.mem_bytes hx).2

theorem Unbroken.concat {l : List LogByte} {x : LogByte} (h : Unbroken LogByte.byte l)
    (hx : x.byte ≠ newline) : Unbroken LogByte.byte (l ++ [x]) := by
  intro y hy
  rcases List.mem_append.mp hy with hy | hy
  · exact h y hy
  · rwa [List.mem_singleton.mp hy]

theorem Unbroken.append {l l' : List LogByte} (h : Unbroken LogByte.byte l) (h' : Unbroken LogByte.byte l') :
    Unbroken LogByte.byte (l ++ l') := fun y hy => (List.mem_append.mp hy).elim (h y) (h' y)

section

variable {u v c w : List LogByte} {x n : LogByte}

/-- The first newline ends the same piece, however the list is written. -/
theorem eq_of_append_newline (hu : Unbroken LogByte.byte u) (hc : Unbroken LogByte.byte c)
    (hx : x.byte = newline) (hn : n.byte = newline) (h : u ++ x :: v = c ++ n :: w) : u = c ∧ v = w := by
  induction u generalizing c with
  | nil =>
    cases c with
    | nil => exact ⟨rfl, (List.cons.inj h).2⟩
    | cons y c => exact absurd ((List.cons.inj h).1 ▸ hx) (hc y List.mem_cons_self)
  | cons y u ih =>
    cases c with
    | nil => exact absurd ((List.cons.inj h).1 ▸ hn) (hu y List.mem_cons_self)
    | cons z c =>
      obtain ⟨hyz, htail⟩ := List.cons.inj h
      obtain ⟨huc, hvw⟩ := ih (fun a ha => hu a (List.mem_cons_of_mem _ ha))
        (fun a ha => hc a (List.mem_cons_of_mem _ ha)) htail
      exact ⟨by rw [hyz, huc], hvw⟩

/-- What is read before the first newline is a beginning of the first piece. -/
theorem prefix_of_append_newline (hu : Unbroken LogByte.byte u) (hn : n.byte = newline)
    (h : u ++ v = c ++ n :: w) : u <+: c := by
  rcases List.prefix_or_prefix_of_prefix (h ▸ List.prefix_append u v)
    (List.prefix_append c (n :: w)) with hpre | ⟨t, rfl⟩
  · exact hpre
  · cases t with
    | nil => simp
    | cons y t =>
      rw [List.append_assoc, List.append_cancel_left_eq] at h
      exact absurd ((List.cons.inj h).1 ▸ hn) (hu y (by simp))

end

/-! ### Frames byte by byte -/

namespace LineBuffer

theorem feed_other (buffer : LineBuffer LogByte) (x : LogByte) (frame : List LogByte) :
    buffer.feed LogByte.byte (x :: frame) =
      feed LogByte.byte ⟨buffer.remainder ++ [x]⟩ frame := by
  simp [feed]

theorem feed_newline {buffer : LineBuffer LogByte} (h : Unbroken LogByte.byte buffer.remainder)
    (hx : x.byte = newline) (frame : List LogByte) :
    buffer.feed LogByte.byte (x :: frame) =
      (buffer.remainder :: (feed LogByte.byte {} frame).1, (feed LogByte.byte {} frame).2) := by
  have hsplit : (buffer.remainder ++ x :: frame).splitOnP (·.byte == newline) =
      buffer.remainder :: frame.splitOnP (·.byte == newline) :=
    List.splitOnP_append_cons_of_forall_mem (fun y hy => by simpa using h y hy) x (by simpa using hx)
      frame
  obtain ⟨part, parts, hparts⟩ :=
    List.exists_cons_of_ne_nil (List.splitOnP_ne_nil (fun y : LogByte => y.byte == newline) frame)
  simp [feed, hsplit, hparts]

end LineBuffer

/-! ### What an open connection still brings -/

/-- Some delivered chunk is the line `i`. -/
def Handed (emitted : List (List LogByte)) (i : Nat) : Prop := ∃ c ∈ emitted, IsLine i c

/-- The lines a connection will still bring whole: in order, and with every line from `b` up to `n` that
was not handed on. -/
structure Upcoming (b n : Nat) (emitted : List (List LogByte)) (lines : List (LoggedLine × Nat)) :
    Prop where
  sorted : lines.Pairwise fun p p' => p.2 < p'.2
  lt : ∀ p ∈ lines, p.2 < n
  rest : ∀ i, b ≤ i → i < n → Handed emitted i ∨ ∃ p ∈ lines, p.2 = i

/-- The buffer's remainder and the bytes still to come are whole lines, the first of them perhaps glued to
a piece of an earlier connection. -/
inductive Ahead (b n : Nat) (emitted : List (List LogByte)) (remainder stream : List LogByte) : Prop
  | whole : Upcoming b n emitted lines → remainder ++ stream = streamOf lines →
    Ahead b n emitted remainder stream
  | glued : Upcoming b n emitted lines → Unbroken LogByte.byte chunk → x.byte = newline →
    remainder ++ stream = chunk ++ x :: streamOf lines →
    (∀ p j, remainder <+: p → p <+: chunk → IsLine j p → Covered IsLine b j emitted) →
    Ahead b n emitted remainder stream

/-- What has been handed on is gapless, and stays so if the remainder is handed on as it is. -/
structure Kept (b : Nat) (emitted : List (List LogByte)) (remainder : List LogByte) : Prop where
  noGap : NoGap IsLine b emitted
  unbroken : Unbroken LogByte.byte remainder
  remainder : ∀ j, IsLine j remainder → Covered IsLine b j emitted

variable {b m : Nat} {emitted : List (List LogByte)} {remainder stream : List LogByte}
  {lines : List (LoggedLine × Nat)} {line : LoggedLine} {i : Nat}

theorem Upcoming.covered (h : Upcoming b m emitted ((line, i) :: lines)) :
    Covered IsLine b i emitted := by
  intro k hb hk
  have hi : i < m := h.lt (line, i) List.mem_cons_self
  rcases h.rest k hb (by omega) with hk' | ⟨p, hp, rfl⟩
  · exact hk'
  · rcases List.mem_cons.mp hp with rfl | hp
    · omega
    · have hlt : i < p.2 := (List.pairwise_cons.mp h.sorted).1 p hp
      omega

theorem Upcoming.tail (h : Upcoming b m emitted ((line, i) :: lines)) :
    Upcoming b m (emitted ++ [line.bytes i]) lines where
  sorted := (List.pairwise_cons.mp h.sorted).2
  lt p hp := h.lt p (List.mem_cons_of_mem _ hp)
  rest k hb hk := by
    rcases h.rest k hb hk with ⟨c, hc, hk'⟩ | ⟨p, hp, rfl⟩
    · exact .inl ⟨c, List.mem_append_left _ hc, hk'⟩
    · rcases List.mem_cons.mp hp with rfl | hp
      · exact .inl ⟨line.bytes i, by simp, line, rfl⟩
      · exact .inr ⟨p, hp, rfl⟩

theorem Upcoming.mono {c : List LogByte} (h : Upcoming b m emitted lines) :
    Upcoming b m (emitted ++ [c]) lines where
  sorted := h.sorted
  lt := h.lt
  rest k hb hk := by
    rcases h.rest k hb hk with ⟨d, hd, hk'⟩ | hp
    · exact .inl ⟨d, List.mem_append_left _ hd, hk'⟩
    · exact .inr hp

/-- An empty remainder, as every connection begins with, adds nothing. -/
theorem kept_nil (h : NoGap IsLine b emitted) : Kept b emitted [] where
  noGap := h
  unbroken := nofun
  remainder j hj := absurd hj (not_isLine_nil j)

/-- Handing the remainder on leaves an empty one. -/
theorem Kept.flush (h : Kept b emitted remainder) : Kept b (emitted ++ [remainder]) [] :=
  kept_nil (h.noGap.concat h.remainder)

/-- The end of a connection hands the remainder on, unless it is blank. -/
theorem Kept.flushed (buffer : LineBuffer LogByte) (h : Kept b emitted buffer.remainder) :
    Kept b (emitted ++ (buffer.flush LogByte.byte).1) (buffer.flush LogByte.byte).2.remainder := by
  unfold LineBuffer.flush
  dsimp only
  split
  · rw [List.append_nil]
    exact kept_nil h.noGap
  · exact h.flush

/-- A byte that is no newline goes to the remainder. -/
theorem Kept.push {x : LogByte} (hx : x.byte ≠ newline) (h : Kept b emitted remainder)
    (ha : Ahead b m emitted remainder (x :: stream)) :
    Kept b emitted (remainder ++ [x]) ∧ Ahead b m emitted (remainder ++ [x]) stream := by
  have hclean := h.unbroken.concat hx
  cases ha with
  | @whole lines hup heq =>
    rw [List.append_cons] at heq
    refine ⟨⟨h.noGap, hclean, fun j hj => ?_⟩, .whole hup heq⟩
    cases lines with
    | nil => simp [streamOf] at heq
    | cons p lines =>
      obtain ⟨line, i⟩ := p
      have hpre : remainder ++ [x] <+: line.bytes i :=
        prefix_of_append_newline (n := line.terminator i) hclean rfl heq
      rw [hj.eq_of_prefix hpre]
      exact hup.covered
  | @glued lines chunk n hup hc hn heq hcov =>
    rw [List.append_cons] at heq
    have hpre : remainder ++ [x] <+: chunk := prefix_of_append_newline hclean hn heq
    refine ⟨⟨h.noGap, hclean, fun j hj => ?_⟩, .glued hup hc hn heq fun p j hp => ?_⟩
    · exact hcov _ j (List.prefix_append _ _) hpre hj
    · exact hcov p j ((List.prefix_append _ _).trans hp)

/-- A newline hands the remainder on. -/
theorem Kept.complete {x : LogByte} (hx : x.byte = newline) (h : Kept b emitted remainder)
    (ha : Ahead b m emitted remainder (x :: stream)) :
    Kept b (emitted ++ [remainder]) [] ∧ Ahead b m (emitted ++ [remainder]) [] stream := by
  refine ⟨h.flush, ?_⟩
  cases ha with
  | @whole lines hup heq =>
    cases lines with
    | nil => simp [streamOf] at heq
    | cons p lines =>
      obtain ⟨line, i⟩ := p
      obtain ⟨hrem, hstream⟩ :=
        eq_of_append_newline h.unbroken (unbroken_bytes line i) hx rfl heq
      exact .whole (hrem ▸ hup.tail) hstream
  | glued hup hc hn heq hcov =>
    obtain ⟨-, hstream⟩ := eq_of_append_newline h.unbroken hc hx hn heq
    exact .whole hup.mono hstream

/-- A frame leaves what has been handed on gapless. -/
theorem Kept.feed (frame : List LogByte) (buffer : LineBuffer LogByte)
    (h : Kept b emitted buffer.remainder)
    (ha : Ahead b m emitted buffer.remainder (frame ++ stream)) :
    Kept b (emitted ++ (buffer.feed LogByte.byte frame).1)
      (buffer.feed LogByte.byte frame).2.remainder ∧
    Ahead b m (emitted ++ (buffer.feed LogByte.byte frame).1)
      (buffer.feed LogByte.byte frame).2.remainder stream := by
  induction frame generalizing buffer emitted with
  | nil =>
    rw [LineBuffer.feed_nil h.unbroken, List.append_nil]
    exact ⟨h, ha⟩
  | cons x frame ih =>
    by_cases hx : x.byte = newline
    · rw [LineBuffer.feed_newline h.unbroken hx]
      obtain ⟨hk, ha⟩ := h.complete hx ha
      have hnext := ih {} hk ha
      rwa [List.append_assoc] at hnext
    · rw [LineBuffer.feed_other]
      obtain ⟨hk, ha⟩ := h.push hx ha
      exact ih ⟨buffer.remainder ++ [x]⟩ hk ha

theorem streamOf_append (l l' : List (LoggedLine × Nat)) :
    streamOf (l ++ l') = streamOf l ++ streamOf l' := by
  induction l with
  | nil => rfl
  | cons p l ih => simp [streamOf, ih]

theorem Upcoming.write (h : Upcoming b m emitted lines) (line : LoggedLine) :
    Upcoming b (m + 1) emitted (lines ++ [(line, m)]) where
  sorted := by
    refine List.pairwise_append.mpr ⟨h.sorted, List.pairwise_singleton _ _, fun p hp q hq => ?_⟩
    rw [List.mem_singleton.mp hq]
    exact h.lt p hp
  lt p hp := by
    rcases List.mem_append.mp hp with hp | hp
    · exact Nat.lt_succ_of_lt (h.lt p hp)
    · rw [List.mem_singleton.mp hp]
      exact Nat.lt_succ_self m
  rest k hb hk := by
    rcases Nat.lt_succ_iff_lt_or_eq.mp hk with hk | rfl
    · rcases h.rest k hb hk with hd | ⟨p, hp, hpk⟩
      · exact .inl hd
      · exact .inr ⟨p, List.mem_append_left _ hp, hpk⟩
    · exact .inr ⟨(line, k), by simp, rfl⟩

/-- A line written while the connection is open comes at its end. -/
theorem Ahead.write (h : Ahead b m emitted remainder stream) (line : LoggedLine) :
    Ahead b (m + 1) emitted remainder (stream ++ streamOf [(line, m)]) := by
  cases h with
  | whole hup heq =>
    refine .whole (hup.write line) ?_
    rw [streamOf_append, ← heq, List.append_assoc]
  | glued hup hc hn heq hcov =>
    refine .glued (hup.write line) hc hn ?_ hcov
    rw [streamOf_append, ← List.append_assoc, heq, List.append_assoc, List.cons_append]

/-! ### Runs -/

namespace LogFollower

variable {self : LogFollower} {name : String} {s s' : FollowState}

/-- What has been handed on in this state is gapless from the first connection on. -/
def Resumed (s : FollowState) : Prop := ∀ b, s.origin = some b → NoGap IsLine b s.follower.emitted

/-- The lines of the next replay that will come whole. -/
def untouched (self : LogFollower) (s : FollowState) : List (LoggedLine × Nat) :=
  if s.follower.buffer.remainder = [] then self.replayed s else (self.replayed s).tail

/-- The next connection takes up where the last one broke off. -/
structure Resumes (config : LogFollower) (s : FollowState) : Prop where
  /-- Every line since the first connection was handed on or comes whole. -/
  rest : ∀ b, s.origin = some b → ∀ i, b ≤ i → i < s.log.length →
    Handed s.follower.emitted i ∨ ∃ p ∈ config.untouched s, p.2 = i
  /-- A piece in the buffer does not spoil a line that is yet to be written. -/
  glued : s.follower.buffer.remainder ≠ [] → config.replayed s ≠ []

/-- Every connection resumes. -/
def Resuming (self : LogFollower) (s : FollowState) (e : FollowEvent) : Prop :=
  e = .connect → Resumes self s

theorem pairwise_zipIdx (log : List α) (k : Nat) :
    (log.zipIdx k).Pairwise fun p p' => p.2 < p'.2 := by
  have h : ((log.zipIdx k).map Prod.snd).Pairwise (· < ·) := by
    rw [List.zipIdx_map_snd]
    exact List.pairwise_lt_range'
  exact List.pairwise_map.mp h

theorem replay_sublist (request : FollowRequest) (log : List LoggedLine) :
    List.Sublist (replay request log) log.zipIdx :=
  (Tail.last_suffix _ _).sublist.trans List.filter_sublist

/-- The lines that come whole are all those that were not handed on. -/
theorem Resumes.upcoming (h : Resumes self s) (hb : s.origin = some b) :
    Upcoming b s.log.length s.follower.emitted (self.untouched s) := by
  have hsub : List.Sublist (self.untouched s) s.log.zipIdx := by
    unfold untouched
    split
    · exact replay_sublist _ _
    · exact (List.tail_sublist _).trans (replay_sublist _ _)
  refine ⟨(pairwise_zipIdx s.log 0).sublist hsub, fun p hp => ?_, h.rest b hb⟩
  have hlt := List.snd_lt_add_of_mem_zipIdx (hsub.subset hp)
  simpa using hlt

structure Sound (s : FollowState) : Prop where
  start : s.origin = none → s.follower.emitted = [] ∧ s.follower.buffer.remainder = [] ∧
    ∀ stream, s.stage ≠ .following stream
  kept : ∀ b, s.origin = some b → Kept b s.follower.emitted s.follower.buffer.remainder
  ahead : ∀ b stream, s.origin = some b → s.stage = .following stream →
    Ahead b s.log.length s.follower.emitted s.follower.buffer.remainder stream

theorem sound_initial : Sound self.initial where
  start _ := ⟨rfl, rfl, nofun⟩
  kept := nofun
  ahead := nofun

/-- A connection that resumes leads on from what has been handed on. -/
theorem Sound.connect (h : Sound s) (hr : Resumes self s) (hb : s.origin = some b) :
    Ahead b s.log.length s.follower.emitted s.follower.buffer.remainder
      (streamOf (self.replayed s)) := by
  have hup := hr.upcoming hb
  by_cases hrem : s.follower.buffer.remainder = []
  · rw [untouched, if_pos hrem] at hup
    exact .whole hup (by rw [hrem, List.nil_append])
  · obtain ⟨⟨line, i⟩, lines, hlines⟩ := List.exists_cons_of_ne_nil (hr.glued hrem)
    rw [untouched, if_neg hrem, hlines, List.tail_cons] at hup
    have hk := h.kept b hb
    refine .glued hup (hk.unbroken.append (unbroken_bytes line i)) (x := line.terminator i) rfl ?_ ?_
    · rw [hlines, streamOf, List.append_assoc]
    · rintro p j ⟨q, rfl⟩ hpre hj
      have hq : q <+: line.bytes i := (List.prefix_append_right_inj _).mp hpre
      by_cases hnil : q = []
      · subst hnil
        rw [List.append_nil] at hj
        exact hk.remainder j hj
      · exact absurd hj (not_isLine_glued hrem hnil hq)

/-- Before the first connection nothing has been handed on. -/
theorem Sound.first (self : LogFollower) (h : Sound s) (hb : s.origin = none) :
    Kept s.log.length s.follower.emitted s.follower.buffer.remainder ∧
    Ahead s.log.length s.log.length s.follower.emitted s.follower.buffer.remainder
      (streamOf (self.replayed s)) := by
  obtain ⟨hemitted, hrem, -⟩ := h.start hb
  have hup : Upcoming s.log.length s.log.length s.follower.emitted (self.replayed s) := by
    refine ⟨(pairwise_zipIdx s.log 0).sublist (replay_sublist _ _), fun p hp => ?_, ?_⟩
    · have hlt := List.snd_lt_add_of_mem_zipIdx ((replay_sublist _ _).subset hp)
      simpa using hlt
    · intro i hle hlt
      omega
  refine ⟨?_, .whole hup (by rw [hrem, List.nil_append])⟩
  rw [hemitted, hrem]
  exact kept_nil .nil

/-- Leaving the loop over the frames, or moving on outside of it. -/
theorem Sound.move {stage : Stage} (h : Sound s) (hs : ∀ stream, stage ≠ .following stream) :
    Sound { s with stage } :=
  ⟨fun hb => ⟨(h.start hb).1, (h.start hb).2.1, hs⟩, h.kept, fun _ stream _ hst => absurd hst (hs stream)⟩

/-- One step keeps the invariant, if a connection resumes. -/
theorem Sound.step {e : FollowEvent} (h : Sound s) (hr : e = .connect → Resumes self s)
    (hstep : Stepped self name s e s') : Sound s' := by
  cases hstep with
  | write hstage =>
    exact ⟨h.start, h.kept, fun b stream _ hs => absurd hs (hstage stream)⟩
  | stream hstage =>
    refine ⟨fun hb => absurd hstage ((h.start hb).2.2 _), h.kept, ?_⟩
    rintro b _ hb ⟨⟩
    have hahead := (h.ahead b _ hb hstage).write
    rw [List.length_append]
    exact hahead _
  | spawn hstage =>
    exact ⟨fun hb => ⟨(h.start hb).1, rfl, nofun⟩, fun b hb => kept_nil (h.kept b hb).noGap, nofun⟩
  | connect hstage =>
    cases hb : s.origin with
    | none =>
      obtain ⟨hkept, hahead⟩ := h.first self hb
      refine ⟨nofun, ?_, ?_⟩
      · rintro _ ⟨⟩
        exact hkept
      · rintro _ _ ⟨⟩ ⟨⟩
        exact hahead
    | some b =>
      refine ⟨nofun, ?_, ?_⟩
      · rintro _ ⟨⟩
        exact h.kept b hb
      · rintro _ _ ⟨⟩ ⟨⟩
        exact h.connect (hr rfl) hb
  | @frame stream n clock hstage =>
    obtain ⟨hemitted, hbuffer⟩ := takeAll_eq LogByte.byte self name clock
      (s.follower.buffer.feed LogByte.byte (stream.take n)).1
      { s.follower with buffer := (s.follower.buffer.feed LogByte.byte (stream.take n)).2 }
    have hfeed (b : Nat) (hb : s.origin = some b) :=
      (h.kept b hb).feed (stream.take n) s.follower.buffer
        (by rw [List.take_append_drop]; exact h.ahead b stream hb hstage)
    refine ⟨fun hb => absurd hstage ((h.start hb).2.2 _), fun b hb => ?_, ?_⟩
    · unfold frame
      rw [hemitted, hbuffer]
      exact (hfeed b hb).1
    · rintro b _ hb ⟨⟩
      unfold frame
      rw [hemitted, hbuffer]
      exact (hfeed b hb).2
  | @finish stream clock hstage =>
    obtain ⟨hemitted, hbuffer⟩ := takeAll_eq LogByte.byte self name clock
      (s.follower.buffer.flush LogByte.byte).1
      { s.follower with buffer := (s.follower.buffer.flush LogByte.byte).2 }
    refine ⟨fun hb => absurd hstage ((h.start hb).2.2 _), fun b hb => ?_, nofun⟩
    unfold finish
    rw [hemitted, hbuffer]
    exact (h.kept b hb).flushed s.follower.buffer
  | refuse | fail | present | missing => exact h.move nofun

/-- In every run whose connections all resume, what has been handed on is gapless. -/
theorem resumed_of_reached (h : Reached self name self.Resuming s) : Resumed s := by
  have hsound : Sound s := by
    induction h with
    | initial => exact sound_initial
    | step _ hr hstep ih => exact ih.step hr (stepped self name hstep)
  exact fun b hb => (hsound.kept b hb).noGap

/-! ### A line written between two connections -/

/-- No line is ever skipped, whatever happens to the connections. -/
def NeverSkips : Prop :=
  ∀ (self : LogFollower) (name : String) (s : FollowState),
    Reached self name (fun _ _ => True) s → Resumed s

/-- A run of events, all of which have to be possible. -/
def run (self : LogFollower) (name : String) (s : FollowState) (events : List FollowEvent) :
    Option FollowState :=
  events.foldlM (self.step name) s

theorem run_cons (e : FollowEvent) (events : List FollowEvent) :
    self.run name s (e :: events) = (self.step name s e).bind (self.run name · events) :=
  List.foldlM_cons

theorem run_append (events events' : List FollowEvent) :
    self.run name s (events ++ events') = (self.run name s events).bind (self.run name · events') :=
  List.foldlM_append

theorem Reached.run {permits : FollowState → FollowEvent → Prop} {events : List FollowEvent}
    (h : Reached self name permits s) (hp : ∀ e ∈ events, ∀ s, permits s e)
    (hrun : self.run name s events = some s') : Reached self name permits s' := by
  induction events generalizing s with
  | nil =>
    cases hrun
    exact h
  | cons e events ih =>
    rw [run_cons] at hrun
    obtain ⟨s₁, hstep, hrest⟩ := Option.bind_eq_some_iff.mp hrun
    exact ih (h.step (hp e List.mem_cons_self s) hstep)
      (fun e he => hp e (List.mem_cons_of_mem _ he)) hrest

theorem Reached.resume {events : List FollowEvent} (h : Reached self name self.Resuming s)
    (hr : Resumes self s) (hne : .connect ∉ events)
    (hrun : self.run name s (.connect :: events) = some s') : Reached self name self.Resuming s' := by
  rw [run_cons] at hrun
  obtain ⟨s₁, hstep, hrest⟩ := Option.bind_eq_some_iff.mp hrun
  exact (h.step (fun _ => hr) hstep).run (fun e he _ heq => absurd (heq ▸ he) hne) hrest

/-- With nothing left in the buffer, a replay of the whole log is always enough. -/
theorem resumes_of_replayed (hrem : s.follower.buffer.remainder = [])
    (hall : ∀ i < s.log.length, i ∈ (self.replayed s).map Prod.snd) : Resumes self s where
  rest b _ i _ hi := by
    rw [untouched, if_pos hrem]
    obtain ⟨p, hp, hpi⟩ := List.mem_map.mp (hall i hi)
    exact .inr ⟨p, hp, hpi⟩
  glued h := absurd hrem h

namespace Between

def follower (tail : Int) : LogFollower where
  tail
  pb := { wire with
    timestampFromJson := fun s =>
      if s = "2026-03-01T10:00:01Z" then some ⟨1772359201, 0⟩
      else if s = "2026-03-01T10:00:02Z" then some ⟨1772359202, 0⟩
      else if s = "2026-03-01T10:00:03Z" then some ⟨1772359203, 0⟩
      else none }
  seconds ns := ns / 1000000000

def first : LoggedLine where
  time := 1772359201
  raw := ascii "2026-03-01T10:00:01Z up"
  ne_nil := by decide
  noNewline := by decide

def second : LoggedLine where
  time := 1772359202
  raw := ascii "2026-03-01T10:00:02Z panic: out of range"
  ne_nil := by decide
  noNewline := by decide

def third : LoggedLine where
  time := 1772359203
  raw := ascii "2026-03-01T10:00:03Z up"
  ne_nil := by decide
  noNewline := by decide

/-- The daemon drops the connection, and the second line is written before the next one. -/
def before : List FollowEvent :=
  [.write first, .frame 100 fun _ => 1772359201, .fail, .present, .write second]

def after : List FollowEvent := [.write third, .frame 100 fun _ => 1772359205]

def events : List FollowEvent := .spawn :: .connect :: before ++ .connect :: after

theorem run_default : ((follower 0).run "app" (follower 0).initial events).map
    (fun s => (s.origin, s.follower.emitted)) = some (some 0, [first.bytes 0, third.bytes 2]) := by
  decide +kernel

theorem not_neverSkips : ¬ NeverSkips := by
  intro h
  obtain ⟨s, hrun, hs⟩ := Option.map_eq_some_iff.mp run_default
  obtain ⟨horigin, hemitted⟩ := Prod.mk.inj hs
  have hgap := h _ _ _ (Reached.initial.run (fun _ _ _ => trivial) hrun) 0 horigin
  rw [hemitted] at hgap
  obtain ⟨c, hc, hline⟩ :=
    hgap [first.bytes 0] (third.bytes 2) (List.prefix_refl _) 2 ⟨third, rfl⟩ 1 (by omega) (by omega)
  rw [List.mem_singleton.mp hc] at hline
  exact absurd (hline.eq ⟨first, rfl⟩) (by omega)

/-- A follow tail of 10 replays what was missed. -/
theorem resumed_with_tail :
    ∃ s, (follower 10).run "app" (follower 10).initial events = some s ∧ Resumed s := by
  have hmid : ((follower 10).run "app" (follower 10).initial (.spawn :: .connect :: before)).map
      (fun s => (s.follower.buffer.remainder, s.log.length, ((follower 10).replayed s).map Prod.snd)) =
      some ([], 2, [0, 1]) := by
    decide +kernel
  have hend : ((follower 10).run "app" (follower 10).initial events).isSome = true := by
    decide +kernel
  obtain ⟨s₂, hrun₂, hs₂⟩ := Option.map_eq_some_iff.mp hmid
  obtain ⟨hrem, hlen⟩ := Prod.mk.inj hs₂
  obtain ⟨hlen, hreplayed⟩ := Prod.mk.inj hlen
  obtain ⟨s₃, hrun₃⟩ := Option.isSome_iff_exists.mp hend
  refine ⟨s₃, hrun₃, ?_⟩
  rw [events, run_append, hrun₂] at hrun₃
  have hfirst : Reached (follower 10) "app" (follower 10).Resuming s₂ := by
    rw [run_cons] at hrun₂
    have hspawn : (follower 10).step "app" (follower 10).initial .spawn = some _ := rfl
    refine (Reached.initial.step nofun hspawn).resume ?_ (by simp [before]) hrun₂
    exact resumes_of_replayed rfl nofun
  refine resumed_of_reached (hfirst.resume ?_ (by simp [after]) hrun₃)
  refine resumes_of_replayed hrem fun i hi => ?_
  rw [hreplayed]
  rw [hlen] at hi
  simp
  omega

end Between

end LogFollower

end KeelsonDocker
