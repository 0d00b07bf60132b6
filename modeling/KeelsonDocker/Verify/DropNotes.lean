import KeelsonDocker.LogsFollower
import KeelsonDocker.Verify.Host
import Mathlib.Tactic.IntervalCases

/-!
# Notes about dropped lines

Every line the rate cap refuses is pending until the next line that it lets through, which brings a note
with the count (`Accounted`). What is pending when the follower ends is never reported, so the notes add up
to the lines refused exactly when the last line was within the cap (`noted_eq_refusals_iff`).
-/

namespace KeelsonDocker

/-! ### The text of a note -/

/-- The text of `overflow_note`. -/
def noteText (cap : Int) (n : Nat) : String :=
  s!"[keelson] dropped {n} line(s) -- rate cap of {cap}/s"

/-- The count in an entry that is a note. -/
def LogEntry.noteCount (cap : Int) (e : LogEntry) : Option Nat :=
  let n := Nat.ofDigitChars 10 ((e.text.toList.drop 18).takeWhile Char.isDigit) 0
  if e.level = .warning ∧ e.text = noteText cap n then some n else none

theorem toList_noteText (cap : Int) (n : Nat) : (noteText cap n).toList =
    "[keelson] dropped ".toList ++ (Nat.toDigits 10 n ++
      (" line(s) -- rate cap of ".toList ++ (cap.repr.toList ++ "/s".toList))) := by
  show ("[keelson] dropped " ++ toString n ++ " line(s) -- rate cap of " ++ toString cap ++
    "/s").toList = _
  simp only [String.toList_append, Nat.toString_eq_repr, Nat.toList_repr, Int.toString_eq_repr,
    List.append_assoc]

theorem noteCount_note (cap : Int) (n : Nat) (name : String) (stamp : ℚ) :
    LogEntry.noteCount cap ⟨name, noteText cap n, .warning, stamp⟩ = some n := by
  have hdigits : ((noteText cap n).toList.drop 18).takeWhile Char.isDigit = Nat.toDigits 10 n := by
    rw [toList_noteText, List.drop_append_of_le_length (by decide)]
    rw [show "[keelson] dropped ".toList.drop 18 = [] by decide, List.nil_append,
      List.takeWhile_append_of_pos fun c hc => Nat.isDigit_of_mem_toDigits (by decide) (by decide) hc]
    exact List.append_nil _
  simp [LogEntry.noteCount, hdigits]

/-! ### No line reads like a note -/

/-- The beginning of a severity token, or of `PANIC`. -/
def opensToken (a b c : Char) : Bool :=
  ("PANIC" :: levels.map Prod.fst).any fun token => [a, b, c].map foldCase = token.toList.take 3

/-- No severity token begins anywhere. -/
def tokenless : List Char → Bool
  | a :: b :: c :: text => !opensToken a b c && tokenless (b :: c :: text)
  | _ => true

theorem isLetter_of_opensToken (h : opensToken a b c = true) :
    isLetter a = true ∧ isLetter b = true ∧ isLetter c = true := by
  obtain ⟨token, htoken, heq⟩ := List.any_eq_true.mp h
  have hall : ("PANIC" :: levels.map Prod.fst).all (fun token =>
      (token.toList.take 3).all fun x => 'A' ≤ x && x ≤ 'Z') = true := by
    decide
  have hletters := List.all_eq_true.mp (List.all_eq_true.mp hall token htoken)
  rw [← of_decide_eq_true heq] at hletters
  exact ⟨hletters _ (by simp), hletters _ (by simp), hletters _ (by simp)⟩

/-- A token that is found has its beginning found. -/
theorem opensToken_of_afterToken {token : String} {rest text : List Char}
    (htoken : token ∈ "PANIC" :: levels.map Prod.fst) (h : afterToken token text = some rest) :
    ∃ a b c text', text = a :: b :: c :: text' ∧ opensToken a b c = true := by
  have hlength : ∀ token ∈ "PANIC" :: levels.map Prod.fst, 3 ≤ token.length := by decide
  have hlen := hlength token htoken
  unfold afterToken at h
  split at h
  · rename_i heq
    have htake : (text.take 3).map foldCase = token.toList.take 3 := by
      rw [← heq, ← List.map_take, List.take_take, Nat.min_eq_left hlen]
    match text with
    | a :: b :: c :: text' =>
      exact ⟨a, b, c, text', rfl, List.any_eq_true.mpr ⟨token, htoken, decide_eq_true htake⟩⟩
    | [] | [_] | [_, _] =>
      have hcount := congrArg List.length htake
      simp only [List.length_map, List.length_take, List.length_cons, List.length_nil,
        String.length_toList] at hcount
      omega
  · cases h

theorem opensToken_of_panicAt {text : List Char} (h : panicAt text = some level) :
    ∃ a b c text', text = a :: b :: c :: text' ∧ opensToken a b c = true := by
  unfold panicAt at h
  split at h
  · exact opensToken_of_afterToken List.mem_cons_self ‹_›
  · cases h

theorem opensToken_of_severityAt {text : List Char} (h : severityAt text = some level) :
    ∃ a b c text', text = a :: b :: c :: text' ∧ opensToken a b c = true := by
  obtain ⟨⟨token, l⟩, hmem, hfound⟩ := List.exists_of_findSome?_eq_some h
  dsimp only at hfound
  split at hfound
  · exact opensToken_of_afterToken (List.mem_cons_of_mem _ (List.mem_map_of_mem hmem)) ‹_›
  · cases hfound

theorem search_eq_none {here : List Char → Option LogLevel}
    (hhere : ∀ text level, here text = some level →
      ∃ a b c text', text = a :: b :: c :: text' ∧ opensToken a b c = true)
    {text : List Char} (h : tokenless text = true) : search here text = none := by
  have hnone (text : List Char) (h : tokenless text = true) : here text = none := by
    cases hfound : here text with
    | none => rfl
    | some level =>
      obtain ⟨a, b, c, text', rfl, hopen⟩ := hhere text level hfound
      simp [tokenless, hopen] at h
  have htail (a : Char) (text : List Char) (h : tokenless (a :: text) = true) :
      tokenless text = true := by
    match text with
    | b :: c :: text => exact (Bool.and_eq_true_iff.mp h).2
    | [] | [_] => rfl
  have hfrom (text : List Char) (h : tokenless text = true) : searchFrom here text = none := by
    induction text with
    | nil => rfl
    | cons a text ih =>
      have ht := htail a text h
      simp [searchFrom, hnone text ht, ih ht]
  simp [search, hnone text h, hfrom text h]

theorem tokenless_of_append {text rest : List Char} (h : tokenless (text ++ rest) = true) :
    tokenless text = true := by
  induction text using tokenless.induct with
  | case1 a b c text ih =>
    simp only [List.cons_append, tokenless, Bool.and_eq_true] at h ⊢
    exact ⟨h.1, ih h.2⟩
  | case2 text hshort =>
    match text with
    | a :: b :: c :: text => exact absurd rfl (hshort a b c text)
    | [] | [_] | [_, _] => rfl

/-- No token runs over a character that is no letter. -/
theorem tokenless_append {text rest : List Char} (ht : tokenless text = true)
    (hr : tokenless rest = true) (hhead : rest.head?.all (!isLetter ·) = true) :
    tokenless (text ++ rest) = true := by
  have hclosed (a b c : Char) (h : isLetter b = false ∨ isLetter c = false) :
      opensToken a b c = false := by
    by_contra hopen
    obtain ⟨-, hb, hc⟩ := isLetter_of_opensToken (Bool.not_eq_false _ ▸ hopen)
    rcases h with h | h <;> simp_all
  cases rest with
  | nil => rwa [List.append_nil]
  | cons x rest =>
    have hx : isLetter x = false := by simpa using hhead
    induction text using tokenless.induct with
    | case1 a b c text ih =>
      simp only [List.cons_append, tokenless, Bool.and_eq_true] at ht ih ⊢
      exact ⟨ht.1, ih ht.2⟩
    | case2 text hshort =>
      match text with
      | a :: b :: c :: text => exact absurd rfl (hshort a b c text)
      | [] => exact hr
      | [a] =>
        cases rest with
        | nil => rfl
        | cons y rest => simp [tokenless, hclosed a x y (.inl hx)] at hr ⊢; exact hr
      | [a, b] =>
        cases rest with
        | nil => simp [tokenless, hclosed a b x (.inr hx)]
        | cons y rest =>
          simp [tokenless, hclosed a b x (.inr hx), hclosed b x y (.inl hx)] at hr ⊢
          exact hr

theorem tokenless_of_letterless {text : List Char} (h : ∀ c ∈ text, isLetter c = false) :
    tokenless text = true := by
  induction text with
  | nil => rfl
  | cons c text ih =>
    have hc := h c List.mem_cons_self
    have hone : tokenless [c] = true := rfl
    refine tokenless_append hone (ih fun c hc => h c (List.mem_cons_of_mem _ hc)) ?_
    cases text with
    | nil => rfl
    | cons x text => simp [h x (by simp)]

theorem isLetter_of_isDigit {c : Char} (h : c.isDigit = true) : isLetter c = false := by
  have hlo : 48 ≤ c.toNat := by
    simp only [Char.isDigit, Bool.and_eq_true, decide_eq_true_eq] at h
    exact h.1
  have hhi : c.toNat ≤ 57 := by
    simp only [Char.isDigit, Bool.and_eq_true, decide_eq_true_eq] at h
    exact h.2
  rw [← Char.ofNat_toNat c]
  generalize c.toNat = n at hlo hhi
  interval_cases n <;> decide

theorem letterless_toDigits {c : Char} (n : Nat) (h : c ∈ Nat.toDigits 10 n) : isLetter c = false :=
  isLetter_of_isDigit (Nat.isDigit_of_mem_toDigits (by decide) (by decide) h)

theorem letterless_repr {c : Char} (cap : Int) (h : c ∈ cap.repr.toList) : isLetter c = false := by
  cases cap with
  | ofNat n =>
    simp only [Int.repr, Nat.toList_repr] at h
    exact letterless_toDigits n h
  | negSucc n =>
    simp only [Int.repr, String.toList_append, Nat.toList_repr, List.mem_append] at h
    rcases h with h | h
    · have hsign : c = '-' := by simpa using h
      subst hsign
      decide
    · exact letterless_toDigits _ h

theorem tokenless_noteText (cap : Int) (n : Nat) : tokenless (noteText cap n).toList = true := by
  have hhead (text rest : List Char) (ht : ∀ c ∈ text, isLetter c = false)
      (hr : rest.head?.all (!isLetter ·) = true) : (text ++ rest).head?.all (!isLetter ·) = true := by
    cases text with
    | nil => exact hr
    | cons c text => simp [ht c List.mem_cons_self]
  rw [toList_noteText]
  have hlast : tokenless "/s".toList = true := by decide
  have hmiddle : tokenless " line(s) -- rate cap of ".toList = true := by decide
  have hcap := tokenless_append (tokenless_of_letterless fun c hc => letterless_repr cap hc)
    hlast (by decide)
  have hrate := tokenless_append hmiddle hcap
    (hhead _ _ (fun c hc => letterless_repr cap hc) (by decide))
  have hcount := tokenless_append (tokenless_of_letterless fun c hc => letterless_toDigits n hc)
    hrate rfl
  exact tokenless_append (by decide) hcount (hhead _ _ (fun c hc => letterless_toDigits n hc) rfl)

/-- A line of the container is no note, even one with a note's text. -/
theorem noteCount_line (cap : Int) (name text : String) (stamp : ℚ) :
    LogEntry.noteCount cap ⟨name, text, sniffLevel text, stamp⟩ = none := by
  apply if_neg
  rintro ⟨hlevel, htext⟩
  dsimp only at hlevel htext
  have hwindow : tokenless ((text.toList).take 48) = true := by
    have hwhole : tokenless (text.toList.take 48 ++ text.toList.drop 48) = true := by
      rw [List.take_append_drop, htext]
      exact tokenless_noteText cap _
    exact tokenless_of_append hwhole
  have hinfo : sniffLevel text = .info := by
    simp [sniffLevel, search_eq_none (fun _ _ => opensToken_of_panicAt) hwindow,
      search_eq_none (fun _ _ => opensToken_of_severityAt) hwindow]
  rw [hinfo] at hlevel
  cases hlevel

/-! ### The cap -/

/-- The window the last line falls in, with the line's place there. A window opens with the first line
that comes a second or more after the one before opened. -/
def lastWindow (times : List ℚ) : ℚ × Nat :=
  times.foldl (fun (opened, place) t => if 1 ≤ t - opened then (t, 1) else (opened, place + 1)) (0, 0)

/-- The last of the lines that come at these times is within the cap. -/
def WithinCap (cap : Int) (times : List ℚ) : Prop := cap ≤ 0 ∨ (lastWindow times).2 ≤ cap

theorem lastWindow_concat (times : List ℚ) (t : ℚ) : lastWindow (times ++ [t]) =
    if 1 ≤ t - (lastWindow times).1 then (t, 1) else ((lastWindow times).1, (lastWindow times).2 + 1) := by
  rw [lastWindow, List.foldl_append]
  rfl

namespace RateLimiter

variable {limiter : RateLimiter}

theorem allow_uncapped (h : limiter.maxLinesPerS ≤ 0) (now : ℚ) : limiter.allow now = (true, limiter) :=
  if_pos h

theorem allow_capped (h : 0 < limiter.maxLinesPerS) (now : ℚ) : limiter.allow now =
    let (window, count) := if 1 ≤ now - limiter.window then (now, 1)
      else (limiter.window, limiter.count + 1)
    (decide (count ≤ limiter.maxLinesPerS), { limiter with
      window, count
      dropped := if count ≤ limiter.maxLinesPerS then limiter.dropped else limiter.dropped + 1 }) := by
  have hcap : ¬ limiter.maxLinesPerS ≤ 0 := by omega
  unfold allow
  rw [if_neg hcap]
  dsimp only
  split <;> dsimp only <;> split <;> simp_all

theorem overflowNote_eq (limiter : RateLimiter) : limiter.overflowNote =
    (if limiter.dropped = 0 then none else some (noteText limiter.maxLinesPerS limiter.dropped),
      { limiter with dropped := 0 }) := by
  unfold overflowNote
  split
  · rename_i hzero
    cases limiter
    cases hzero
    rfl
  · rfl

theorem dropped_allow (limiter : RateLimiter) (now : ℚ) : (limiter.allow now).2.dropped =
    limiter.dropped + if (limiter.allow now).1 then 0 else 1 := by
  unfold allow
  split
  · rfl
  · dsimp only
    split <;> split <;> rfl

end RateLimiter

/-- The limiter after lines at these times, whether or not its drops were reported. -/
structure Counted (cap : Int) (times : List ℚ) (limiter : RateLimiter) : Prop where
  maxLinesPerS : limiter.maxLinesPerS = cap
  window : 0 < cap → limiter.window = (lastWindow times).1 ∧ limiter.count = (lastWindow times).2

namespace Counted

variable {cap : Int} {times : List ℚ} {limiter : RateLimiter}

theorem allow (h : Counted cap times limiter) (now : ℚ) :
    Counted cap (times ++ [now]) (limiter.allow now).2 := by
  obtain ⟨rfl, hwindow⟩ := h
  by_cases hcap : 0 < limiter.maxLinesPerS
  · obtain ⟨hopened, hcount⟩ := hwindow hcap
    rw [RateLimiter.allow_capped hcap]
    refine ⟨rfl, fun _ => ?_⟩
    rw [lastWindow_concat, ← hopened]
    dsimp only
    split
    · exact ⟨rfl, rfl⟩
    · exact ⟨rfl, by rw [hcount]; rfl⟩
  · rw [RateLimiter.allow_uncapped (not_lt.mp hcap)]
    exact ⟨rfl, fun hpos => absurd hpos hcap⟩

/-- A line is let through exactly when it is within the cap. -/
theorem allow_iff (h : Counted cap times limiter) (now : ℚ) :
    (limiter.allow now).1 = true ↔ WithinCap cap (times ++ [now]) := by
  obtain ⟨rfl, hwindow⟩ := h
  by_cases hcap : 0 < limiter.maxLinesPerS
  · obtain ⟨hopened, hcount⟩ := hwindow hcap
    have hpos : ¬ limiter.maxLinesPerS ≤ 0 := not_le.mpr hcap
    rw [RateLimiter.allow_capped hcap, WithinCap, lastWindow_concat, ← hopened, hcount]
    simp only [hpos, false_or]
    split <;> simp
  · rw [RateLimiter.allow_uncapped (not_lt.mp hcap)]
    exact iff_of_true rfl (.inl (not_lt.mp hcap))

end Counted

namespace LogFollower

/-! ### The calls of `_emit` -/

section

variable {α : Type} (byte : α → UInt8)

/-- The calls for chunks that are handed on at the readings of a clock. -/
def callsAt (clock : Nat → ℚ) (chunks : List (List α)) : List (List α × ℚ) :=
  chunks.zipIdx.map fun (chunk, k) => (chunk, clock k)

def frameCalls : LineBuffer α → List (List α × (Nat → ℚ)) → List (List α × ℚ) × LineBuffer α
  | buffer, [] => ([], buffer)
  | buffer, (bytes, clock) :: frames =>
    let (chunks, buffer) := buffer.feed byte bytes
    let (calls, buffer) := frameCalls buffer frames
    (callsAt clock chunks ++ calls, buffer)

def roundCalls (buffer : LineBuffer α) : Round α → List (List α × ℚ) × LineBuffer α
  | .refused => ([], buffer)
  | .drained frames clock =>
    let (calls, buffer) := frameCalls byte buffer frames
    let (chunks, buffer) := buffer.flush byte
    (calls ++ callsAt clock chunks, buffer)
  | .broken frames => frameCalls byte buffer frames

/-- The chunks of a run, with the readings of the clock. -/
def calls : LineBuffer α → List (Round α) → List (List α × ℚ)
  | _, [] => []
  | buffer, round :: rounds =>
    let (first, buffer) := roundCalls byte buffer round
    first ++ calls buffer rounds

/-- One call of `_emit` after the other. -/
def takes (self : LogFollower) (name : String) (f : Following α) (calls : List (List α × ℚ)) :
    Following α :=
  calls.foldl (fun f (chunk, now) => self.take byte name f chunk now) f

variable (self : LogFollower) (name : String) (f : Following α)

theorem takes_buffer (calls : List (List α × ℚ)) (buffer : LineBuffer α) :
    self.takes byte name { f with buffer } calls = { self.takes byte name f calls with buffer } := by
  induction calls generalizing f with
  | nil => rfl
  | cons call calls ih => exact ih (self.take byte name f call.1 call.2)

theorem takeAll_eq_takes (clock : Nat → ℚ) (chunks : List (List α)) :
    self.takeAll byte name clock chunks f = self.takes byte name f (callsAt clock chunks) := by
  simp [takeAll, takes, callsAt, List.foldl_map]

theorem readFrames_eq_takes (frames : List (List α × (Nat → ℚ))) :
    self.readFrames byte name frames f =
      { self.takes byte name f (frameCalls byte f.buffer frames).1 with
        buffer := (frameCalls byte f.buffer frames).2 } := by
  induction frames generalizing f with
  | nil => rfl
  | cons frame frames ih =>
    obtain ⟨bytes, clock⟩ := frame
    have hframe : self.frame byte name clock bytes f =
        { self.takes byte name f (callsAt clock (f.buffer.feed byte bytes).1) with
          buffer := (f.buffer.feed byte bytes).2 } := by
      rw [← takes_buffer, ← takeAll_eq_takes]
      rfl
    show self.readFrames byte name frames (self.frame byte name clock bytes f) = _
    rw [ih, hframe, takes_buffer]
    simp [frameCalls, takes]

theorem round_eq_takes (round : Round α) :
    self.round byte name f round =
      { self.takes byte name f (roundCalls byte f.buffer round).1 with
        buffer := (roundCalls byte f.buffer round).2 } := by
  cases round with
  | refused => rfl
  | broken frames => exact readFrames_eq_takes byte self name f frames
  | drained frames clock =>
    show self.finish byte name clock (self.readFrames byte name frames f) = _
    unfold finish
    dsimp only
    rw [takeAll_eq_takes, takes_buffer, readFrames_eq_takes]
    dsimp only
    rw [takes_buffer]
    simp [roundCalls, takes]

/-- `_follow` is its calls of `_emit`, one after the other. -/
theorem follow_eq_takes (rounds : List (Round α)) : ∃ buffer, self.follow byte name rounds =
    { self.takes byte name { limiter := { maxLinesPerS := self.maxLinesPerS } }
        (calls byte {} rounds) with buffer } := by
  unfold follow
  generalize hf : ({ limiter := { maxLinesPerS := self.maxLinesPerS } } : Following α) = f
  have hbuffer : ({} : LineBuffer α) = f.buffer := by rw [← hf]
  rw [hbuffer]
  clear hf hbuffer
  induction rounds generalizing f with
  | nil => exact ⟨f.buffer, rfl⟩
  | cons round rounds ih =>
    obtain ⟨buffer, hrest⟩ := ih (self.round byte name f round)
    refine ⟨buffer, ?_⟩
    rw [List.foldl_cons, hrest, round_eq_takes, takes_buffer]
    simp [calls, takes]

end

/-! ### Accounting -/

/-- The limiter has counted the lines, and nothing is pending exactly when the last was within the cap. -/
structure Accounted (config : LogFollower) (times : List ℚ) (limiter : RateLimiter) : Prop where
  counted : Counted config.maxLinesPerS times limiter
  pending : limiter.dropped = 0 ↔ WithinCap config.maxLinesPerS times

section

variable {α : Type} (byte : α → UInt8) (self : LogFollower) (name : String)

/-- When the lines come: the chunks that are not blank. -/
def lineTimes (calls : List (List α × ℚ)) : List ℚ :=
  calls.filterMap fun (chunk, now) =>
    (parseLogLine self.pb (chunk.map byte) .unspecified).map fun _ => now

/-- The limiter refuses the line of a call. -/
def refuses (f : Following α) (chunk : List α) (now : ℚ) : Bool :=
  (parseLogLine self.pb (chunk.map byte) .unspecified).isSome && !(f.limiter.allow now).1

/-- How many lines the limiter refuses from a state on. -/
def refusals : Following α → List (List α × ℚ) → Nat
  | _, [] => 0
  | f, (chunk, now) :: calls =>
    (self.refuses byte f chunk now).toNat + refusals (self.take byte name f chunk now) calls

/-- The counts in the notes among the entries, added up. -/
def noted (entries : List LogEntry) : Nat :=
  (entries.filterMap (LogEntry.noteCount self.maxLinesPerS)).sum

theorem noted_append (entries entries' : List LogEntry) :
    self.noted (entries ++ entries') = self.noted entries + self.noted entries' := by
  simp [noted]

/-- A line that is let through brings a note with all that is pending. -/
theorem noted_overflowNote {limiter : RateLimiter} (h : limiter.maxLinesPerS = self.maxLinesPerS)
    (text : String) (now stamp : ℚ) :
    self.noted ((limiter.overflowNote.1.toList.map fun text => ⟨name, text, .warning, now⟩) ++
      [⟨name, text, sniffLevel text, stamp⟩]) = limiter.dropped := by
  have hline : self.noted [⟨name, text, sniffLevel text, stamp⟩] = 0 := by
    simp [noted, noteCount_line]
  rw [noted_append, hline, RateLimiter.overflowNote_eq]
  dsimp only
  split
  · rename_i hzero
    exact hzero.symm
  · simp [noted, ← h, noteCount_note]

variable {byte self} {f : Following α} {times : List ℚ}

/-- What one call refuses is pending afterwards, or reported. -/
theorem Accounted.take (h : Accounted self times f.limiter) (chunk : List α) (now : ℚ) :
    Accounted self (times ++ self.lineTimes byte [(chunk, now)])
      (self.take byte name f chunk now).limiter ∧
    (self.refuses byte f chunk now).toNat + f.limiter.dropped + self.noted f.entries =
      self.noted (self.take byte name f chunk now).entries +
        (self.take byte name f chunk now).limiter.dropped := by
  cases hparse : parseLogLine self.pb (chunk.map byte) .unspecified with
  | none =>
    have htimes : self.lineTimes byte [(chunk, now)] = [] := by simp [lineTimes, hparse]
    rw [htimes, List.append_nil]
    simp only [LogFollower.take, emit, refuses, hparse]
    exact ⟨h, by simp [Nat.add_comm]⟩
  | some line =>
    have hcounted := h.counted.allow now
    have hiff := h.counted.allow_iff now
    have hdropped := f.limiter.dropped_allow now
    have htimes : self.lineTimes byte [(chunk, now)] = [now] := by simp [lineTimes, hparse]
    rw [htimes]
    cases hallow : (f.limiter.allow now).1 with
    | false =>
      rw [hallow] at hiff hdropped
      simp only [LogFollower.take, emit, refuses, hparse, hallow]
      refine ⟨⟨hcounted, ?_⟩, ?_⟩
      · simp [hdropped, ← hiff]
      · simp [hdropped]
        omega
    | true =>
      rw [hallow] at hiff hdropped
      simp only [LogFollower.take, emit, refuses, hparse, hallow]
      have hnoted := noted_overflowNote self name hcounted.maxLinesPerS line.text now
        ((line.time.map fun t => self.seconds t.toNanoseconds).getD now)
      have hlimiter : (f.limiter.allow now).2.overflowNote.2 =
          { (f.limiter.allow now).2 with dropped := 0 } := by
        rw [RateLimiter.overflowNote_eq]
      simp only [Bool.not_true, Bool.false_eq_true, if_false, hlimiter]
      refine ⟨⟨⟨hcounted.maxLinesPerS, hcounted.window⟩, ?_⟩, ?_⟩
      · simp [← hiff]
      · rw [noted_append, hnoted, hdropped]
        simp
        omega

theorem Accounted.takes (h : Accounted self times f.limiter) (calls : List (List α × ℚ)) :
    Accounted self (times ++ self.lineTimes byte calls) (self.takes byte name f calls).limiter ∧
    self.refusals byte name f calls + f.limiter.dropped + self.noted f.entries =
      self.noted (self.takes byte name f calls).entries +
        (self.takes byte name f calls).limiter.dropped := by
  induction calls generalizing f times with
  | nil => simp [LogFollower.takes, lineTimes, refusals, h, Nat.add_comm]
  | cons call calls ih =>
    obtain ⟨chunk, now⟩ := call
    obtain ⟨hfirst, hsum⟩ := h.take name chunk now
    obtain ⟨hrest, hsums⟩ := ih hfirst
    have htimes : self.lineTimes byte ((chunk, now) :: calls) =
        self.lineTimes byte [(chunk, now)] ++ self.lineTimes byte calls := by
      rw [← List.singleton_append]
      exact List.filterMap_append
    rw [htimes, ← List.append_assoc]
    refine ⟨hrest, ?_⟩
    have hcons : self.takes byte name f ((chunk, now) :: calls) =
        self.takes byte name (self.take byte name f chunk now) calls := rfl
    rw [hcons, ← hsums, refusals]
    omega

/-- The notes of a complete run add up to the lines that were refused exactly when its last line was within
the cap. -/
theorem noted_eq_refusals_iff (byte : α → UInt8) (self : LogFollower) (name : String)
    (rounds : List (Round α)) :
    self.noted (self.follow byte name rounds).entries =
      self.refusals byte name { limiter := { maxLinesPerS := self.maxLinesPerS } }
        (calls byte {} rounds) ↔
    WithinCap self.maxLinesPerS (self.lineTimes byte (calls byte {} rounds)) := by
  have hstart : Accounted self [] { maxLinesPerS := self.maxLinesPerS } := by
    refine ⟨⟨rfl, fun _ => ⟨rfl, rfl⟩⟩, ?_⟩
    simp [WithinCap, lastWindow]
    omega
  obtain ⟨⟨-, hpending⟩, hsum⟩ := Accounted.takes name
    (f := { limiter := { maxLinesPerS := self.maxLinesPerS } }) hstart (calls byte {} rounds)
  obtain ⟨buffer, hfollow⟩ := follow_eq_takes byte self name rounds
  rw [hfollow]
  rw [List.nil_append] at hpending
  rw [← hpending]
  simp only [noted, List.filterMap_nil, List.sum_nil] at hsum ⊢
  omega

end

/-! ### A container that dies in a burst -/

/-- All lines that are refused are reported, whatever the container does. -/
def ReportsDrops : Prop :=
  ∀ (self : LogFollower) (name : String) (rounds : List (Round UInt8)),
    self.noted (self.follow id name rounds).entries =
      self.refusals id name { limiter := { maxLinesPerS := self.maxLinesPerS } } (calls id {} rounds)

namespace Burst

/-- `--follow-max-lines-per-s 1` -/
def follower : LogFollower where
  maxLinesPerS := 1
  pb := wire
  seconds ns := ns / 1000000000

/-- The lines `a` and `b` within one second, and the container is gone. -/
def rounds : List (Round UInt8) := [.drained [([97, 10, 98, 10], fun _ => 100)] fun _ => 100]

theorem not_reportsDrops : ¬ ReportsDrops := by
  intro h
  have hsilent : follower.noted (follower.follow id "app" rounds).entries = 0 := by decide +kernel
  have hrefused : follower.refusals id "app" { limiter := { maxLinesPerS := 1 } }
      (calls id {} rounds) = 1 := by
    decide +kernel
  have heq := h follower "app" rounds
  rw [hsilent] at heq
  exact absurd (heq.trans hrefused) (by decide)

end Burst

end LogFollower

end KeelsonDocker
