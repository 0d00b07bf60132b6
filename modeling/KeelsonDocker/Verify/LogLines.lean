import KeelsonDocker.Verify.LogTail
import Mathlib.Data.List.TakeWhile

/-!
# The text of a parsed line

A log line keeps all its text exactly when what looks like its timestamp is one (`losesNoText_iff`): the
prefix is cut off by its shape, and `parseDockerTime` is asked afterwards.
-/

namespace KeelsonDocker

/-! ### Decoding across an ASCII byte -/

/-- The next byte that a begun character takes is no ASCII one. -/
def Pending.Continues (p : Pending) : Prop := 0x80 ≤ p.low

theorem utf8Lead_ascii {b : Nat} (h : b < 0x80) : utf8Lead b = some (.inl (Char.ofNat b)) := if_pos h

theorem continues_of_utf8Lead {b : Nat} {p : Pending} (h : utf8Lead b = some (.inr p)) :
    p.Continues := by
  unfold utf8Lead at h
  repeat' split at h
  all_goals
    cases h
  all_goals
    simp [Pending.Continues]

theorem utf8Replace_ascii {b : UInt8} (h : b.toNat < 0x80) (bs : Bytes) :
    utf8Replace none (b :: bs) = Char.ofNat b.toNat :: utf8Replace none bs := by
  rw [utf8Replace, utf8Lead_ascii h]

/-- An ASCII byte is decoded as itself, and ends what was begun before it. -/
theorem suffix_utf8Replace {b : UInt8} (hb : b.toNat < 0x80) (p : Option Pending) (bs rest : Bytes)
    (hp : ∀ q ∈ p, q.Continues) :
    Char.ofNat b.toNat :: utf8Replace none rest <:+ utf8Replace p (bs ++ b :: rest) := by
  induction p, bs using utf8Replace.induct with
  | case1 =>
    rw [List.nil_append, utf8Replace_ascii hb]
  | case2 q =>
    have hlow : ¬ (q.low ≤ b.toNat ∧ b.toNat ≤ q.high) := by
      have hcontinues : 0x80 ≤ q.low := hp q rfl
      omega
    rw [List.nil_append, utf8Replace, if_neg hlow, utf8Lead_ascii hb]
    exact List.suffix_cons _ _
  | case3 b' bs c hlead ih =>
    rw [List.cons_append, utf8Replace, hlead]
    exact (ih nofun).trans (List.suffix_cons _ _)
  | case4 b' bs q hlead ih =>
    rw [List.cons_append, utf8Replace, hlead]
    apply ih
    rintro _ ⟨⟩
    exact continues_of_utf8Lead hlead
  | case5 b' bs hlead ih =>
    rw [List.cons_append, utf8Replace, hlead]
    exact (ih nofun).trans (List.suffix_cons _ _)
  | case6 q b' bs hin howed ih =>
    -- The last byte of a character.
    rw [List.cons_append, utf8Replace, if_pos hin]
    simp only [howed, if_true]
    exact (ih nofun).trans (List.suffix_cons _ _)
  | case7 q b' bs hin bits howed ih =>
    rw [List.cons_append, utf8Replace, if_pos hin]
    simp only [howed, if_false]
    apply ih
    rintro _ ⟨⟩
    exact Nat.le_refl _
  | case8 q b' bs hout ih ihp =>
    -- The begun character is replaced, and the byte is looked at again.
    rw [List.cons_append, utf8Replace, if_neg hout]
    cases hlead : utf8Lead b'.toNat with
    | none => exact (ih nofun).trans ((List.suffix_cons _ _).trans (List.suffix_cons _ _))
    | some lead =>
      cases lead with
      | inl c => exact (ih nofun).trans ((List.suffix_cons _ _).trans (List.suffix_cons _ _))
      | inr q' =>
        refine (ihp q' ?_).trans (List.suffix_cons _ _)
        rintro _ ⟨⟩
        exact continues_of_utf8Lead hlead

/-! ### The prefix -/

/-- What `rstrip` takes off stops at any other character. -/
theorem length_rstrip_lt {c d : Char} (h : d ≠ c) (before middle text : List Char) :
    (rstrip c (String.ofList text)).length <
      (rstrip c (String.ofList (before ++ d :: (middle ++ text)))).length := by
  have hreverse : (before ++ d :: (middle ++ text)).reverse =
      text.reverse ++ (middle.reverse ++ d :: before.reverse) := by
    simp
  simp only [rstrip, String.length_ofList, String.toList_ofList, List.length_reverse, hreverse]
  rw [List.dropWhile_append]
  split
  · rename_i hnil
    rw [List.isEmpty_iff.mp hnil, List.length_nil]
    apply List.length_pos_of_ne_nil
    intro hempty
    exact h (eq_of_beq (List.dropWhile_eq_nil_iff.mp hempty d (by simp)))
  · simp only [List.length_append, List.length_cons]
    omega

/-- The text of a line, as the code makes it. -/
def lineText (bs : Bytes) : String := rstrip '\r' (decodeReplace bs)

variable {chunk token rest : Bytes} {pb : Protobuf} {stream : LogStream} {line : LogLine}

/-- A prefix has the shape of a timestamp: a word that ends in `Z`, and a blank. -/
theorem logPrefix_eq_some (h : logPrefix chunk = some (token, rest)) :
    ∃ sp, chunk = token ++ sp :: rest ∧ isSpaceByte sp = true ∧ (∀ b ∈ token, isSpaceByte b = false) ∧
      ∃ front, token = front ++ [90] := by
  have hsplit := List.takeWhile_append_dropWhile (p := (!isSpaceByte ·)) (l := chunk)
  have hdrop : chunk.drop (chunk.takeWhile (!isSpaceByte ·)).length =
      chunk.dropWhile (!isSpaceByte ·) := by
    conv_lhs => arg 2; rw [← hsplit]
    exact List.drop_left
  unfold logPrefix at h
  dsimp only at h
  rw [hdrop] at h
  cases hrest : chunk.dropWhile (!isSpaceByte ·) with
  | nil =>
    rw [hrest] at h
    cases h
  | cons sp text =>
    rw [hrest] at h hsplit
    dsimp only at h
    split at h
    · rename_i hshape
      obtain ⟨-, hlast⟩ := Bool.and_eq_true_iff.mp hshape
      obtain ⟨rfl, rfl⟩ := Prod.mk.inj (Option.some.inj h)
      refine ⟨sp, hsplit.symm, ?_, fun b hb => ?_, _,
        (List.dropLast_append_getLast? _ (eq_of_beq hlast)).symm⟩
      · have hne : chunk.dropWhile (!isSpaceByte ·) ≠ [] := by simp [hrest]
        have hhead := List.head_dropWhile_not (!isSpaceByte ·) hne
        simpa [hrest] using hhead
      · simpa using List.mem_takeWhile_imp hb
    · cases h

theorem ascii_of_isSpaceByte {b : UInt8} (h : isSpaceByte b = true) : b.toNat < 0x80 := by
  simp only [isSpaceByte, Bool.or_eq_true, Bool.and_eq_true, decide_eq_true_eq, beq_iff_eq] at h
  rcases h with rfl | ⟨-, h⟩
  · decide
  · exact Nat.lt_of_le_of_lt h (by decide)

/-- A prefix that is cut off is missing in the text. -/
theorem lineText_ne (h : logPrefix chunk = some (token, rest)) : lineText rest ≠ lineText chunk := by
  obtain ⟨sp, rfl, hsp, -, front, rfl⟩ := logPrefix_eq_some h
  have hZ : (90 : UInt8).toNat < 0x80 := by decide
  obtain ⟨ds, hds⟩ := suffix_utf8Replace hZ none front (sp :: rest) nofun
  rw [utf8Replace_ascii (ascii_of_isSpaceByte hsp)] at hds
  have hlt := length_rstrip_lt (by decide : Char.ofNat (90 : UInt8).toNat ≠ '\r') ds
    [Char.ofNat sp.toNat] (utf8Replace none rest)
  rw [List.singleton_append, hds] at hlt
  intro heq
  rw [List.append_assoc, List.singleton_append] at heq
  exact absurd (congrArg String.length heq) hlt.ne

/-! ### The time and the text -/

/-- The time stands for a token that was cut off, and without one nothing was. -/
structure LosesNoText (pb : Protobuf) (chunk : Bytes) (line : LogLine) : Prop where
  timed : ∀ ts, line.time = some ts → ∃ token sp rest, chunk = token ++ sp :: rest ∧
    (∀ b ∈ token, isSpaceByte b = false) ∧ isSpaceByte sp = true ∧
    parseDockerTime pb (.str (asciiReplace token)) = some ts ∧ line.text = lineText rest
  untimed : line.time = none → line.text = lineText chunk

theorem losesNoText_iff (hblank : chunk.all isSpaceByte = false) :
    (∃ line, parseLogLine pb chunk stream = some line ∧ LosesNoText pb chunk line) ↔
      ∀ token rest, logPrefix chunk = some (token, rest) →
        (parseDockerTime pb (.str (asciiReplace token))).isSome := by
  have hne : ¬ chunk.all isSpaceByte = true := by simp [hblank]
  unfold parseLogLine
  rw [if_neg hne]
  cases hprefix : logPrefix chunk with
  | none =>
    refine iff_of_true ⟨_, rfl, nofun, fun _ => rfl⟩ nofun
  | some parts =>
    obtain ⟨token, rest⟩ := parts
    dsimp only
    constructor
    · rintro ⟨line, hline, hloses⟩ token' rest' heq
      cases heq
      cases hline
      cases htime : parseDockerTime pb (.str (asciiReplace token)) with
      | some ts => rfl
      | none => exact absurd (hloses.untimed htime) (lineText_ne hprefix)
    · intro h
      obtain ⟨ts, hts⟩ := Option.isSome_iff_exists.mp (h token rest rfl)
      obtain ⟨sp, hchunk, hsp, htoken, -⟩ := logPrefix_eq_some hprefix
      refine ⟨_, rfl, fun ts' h' => ?_, fun hnone => ?_⟩
      · exact ⟨token, sp, rest, hchunk, htoken, hsp, h', rfl⟩
      · cases hts.symm.trans hnone

/-! ### A word that ends like a timestamp -/

namespace TwoStreams

theorem losesNoText_up : ∃ line, parseLogLine stamped (ascii "2024-05-01T10:00:01Z up") .stdout = some line ∧
    LosesNoText stamped (ascii "2024-05-01T10:00:01Z up") line := by
  apply (losesNoText_iff (by decide)).mpr
  intro token rest h
  have hprefix : logPrefix (ascii "2024-05-01T10:00:01Z up") =
      some (ascii "2024-05-01T10:00:01Z", ascii "up") := by decide
  cases hprefix.symm.trans h
  decide

/-- The first word is lost. -/
theorem not_losesNoText_word : parseLogLine stamped (ascii "JAZZ tonight") .stdout =
      some ⟨none, .stdout, "tonight"⟩ ∧
    ¬ LosesNoText stamped (ascii "JAZZ tonight") ⟨none, .stdout, "tonight"⟩ := by
  refine ⟨by decide, fun h => ?_⟩
  exact absurd (h.untimed rfl) (by decide)

end TwoStreams

end KeelsonDocker
