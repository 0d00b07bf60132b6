import KeelsonDocker.GitStatus

/-!
# Names as `git` quotes them

Escaping a name adds backslashes, unless every character of it stands for itself (`count_escapes`), and
leaves each ` -> ` where it is (`arrows_escapes`). So the first arrow of a line is the one behind the old
name exactly if that name has none (`afterArrow_append`).
-/

namespace KeelsonDocker.GitStatus

open PlatformRepo

variable {c x : Char} {name : String}

/-- A character that stands for itself in quotes. -/
def Verbatim (c : Char) : Prop := 32 ≤ c.toNat ∧ c.toNat < 127 ∧ c ≠ '"' ∧ c ≠ '\\'

instance : DecidablePred Verbatim := fun _ => inferInstanceAs (Decidable (_ ∧ _))

theorem eq_of_toNat {n : Nat} (h : c.toNat = n) : c = Char.ofNat n := by
  rw [← h, Char.ofNat_toNat]

theorem mem_letters {n : Nat} {letter : Char} (h : letters.lookup n = some letter) :
    (n, letter) ∈ letters := by
  obtain ⟨before, after, heq, -⟩ := List.lookup_eq_some_iff.mp h
  rw [heq]
  simp

theorem escape_of_verbatim (h : Verbatim c) : escape c = [c] := by
  obtain ⟨hlo, hhi, hquote, hbackslash⟩ := h
  have hletters : letters.lookup c.toNat = none := by
    cases hl : letters.lookup c.toNat with
    | none => rfl
    | some letter =>
      have hkeys : ∀ e ∈ letters, e.1 < 32 ∨ e.1 = 34 ∨ e.1 = 92 := by decide
      rcases hkeys _ (mem_letters hl) with hn | hn | hn
      · exact absurd hlo (Nat.not_le.mpr hn)
      · exact absurd (eq_of_toNat hn) hquote
      · exact absurd (eq_of_toNat hn) hbackslash
  simp [escape, hletters, hlo, hhi]

theorem printable_octal {n : Nat} (h : x ∈ octal n) : 33 ≤ x.toNat ∧ x.toNat < 127 := by
  have hdigit : ∀ d < 8, 33 ≤ (Char.ofNat (48 + d)).toNat ∧ (Char.ofNat (48 + d)).toNat < 127 := by
    decide
  simp only [octal, List.map_cons, List.map_nil, List.mem_cons, List.not_mem_nil, or_false] at h
  rcases h with rfl | rfl | rfl <;> exact hdigit _ (Nat.mod_lt _ (by decide))

/-- What is escaped begins with a backslash, and holds no blank. -/
theorem escape_of_not_verbatim (h : ¬ Verbatim c) :
    ∃ rest, escape c = '\\' :: rest ∧ (c = '\\' → '\\' ∈ rest) ∧
      ∀ x ∈ rest, 33 ≤ x.toNat ∧ x.toNat < 127 := by
  unfold escape
  split
  · rename_i letter hletter
    have hmem := mem_letters hletter
    refine ⟨[letter], rfl, ?_, ?_⟩
    · rintro rfl
      cases hletter
      exact List.mem_singleton_self _
    · have hall : ∀ e ∈ letters, 33 ≤ e.2.toNat ∧ e.2.toNat < 127 := by decide
      intro x hx
      rw [List.mem_singleton.mp hx]
      exact hall _ hmem
  · rename_i hletters
    have hnot : ¬ (32 ≤ c.toNat ∧ c.toNat < 127) := by
      rintro ⟨hlo, hhi⟩
      refine h ⟨hlo, hhi, ?_, ?_⟩ <;> rintro rfl <;> cases hletters
    rw [if_neg hnot]
    obtain ⟨b, bs, hbytes⟩ : ∃ b bs, String.utf8EncodeChar c = b :: bs := by
      unfold String.utf8EncodeChar
      dsimp only
      repeat' split
      all_goals exact ⟨_, _, rfl⟩
    rw [hbytes, List.flatMap_cons]
    refine ⟨_, rfl, ?_, fun x hx => ?_⟩
    · rintro rfl
      cases hletters
    · rcases List.mem_append.mp hx with hx | hx
      · exact printable_octal hx
      · obtain ⟨b', -, hx⟩ := List.mem_flatMap.mp hx
        rcases List.mem_cons.mp hx with rfl | hx
        · decide
        · exact printable_octal hx

/-! ### Escaped names -/

variable {cs pre : List Char}

theorem printable_escapes (h : x ∈ cs.flatMap escape) : 32 ≤ x.toNat ∧ x.toNat < 127 := by
  obtain ⟨c, -, hx⟩ := List.mem_flatMap.mp h
  by_cases hc : Verbatim c
  · rw [escape_of_verbatim hc] at hx
    rw [List.mem_singleton.mp hx]
    exact ⟨hc.1, hc.2.1⟩
  · obtain ⟨rest, heq, -, hrest⟩ := escape_of_not_verbatim hc
    rw [heq] at hx
    rcases List.mem_cons.mp hx with rfl | hx
    · decide
    · exact ⟨Nat.le_of_succ_le (hrest x hx).1, (hrest x hx).2⟩

theorem escapes_eq_self (h : ∀ c ∈ cs, Verbatim c) : cs.flatMap escape = cs := by
  induction cs with
  | nil => rfl
  | cons c cs ih =>
    rw [List.flatMap_cons, escape_of_verbatim (h c List.mem_cons_self),
      ih fun c hc => h c (List.mem_cons_of_mem _ hc)]
    rfl

/-- Escaping adds backslashes. -/
theorem count_escape (c : Char) :
    if Verbatim c then (escape c).count '\\' = [c].count '\\'
    else [c].count '\\' < (escape c).count '\\' := by
  split
  · rename_i hc
    rw [escape_of_verbatim hc]
  · rename_i hc
    obtain ⟨rest, heq, hbackslash, -⟩ := escape_of_not_verbatim hc
    rw [heq, List.count_cons_self]
    by_cases h : c = '\\'
    · have := List.count_pos_iff.mpr (hbackslash h)
      rw [h, List.count_singleton_self]
      omega
    · simp [h]

theorem count_escapes (cs : List Char) : cs.count '\\' ≤ (cs.flatMap escape).count '\\' ∧
    ((cs.flatMap escape).count '\\' = cs.count '\\' → ∀ c ∈ cs, Verbatim c) := by
  induction cs with
  | nil => simp
  | cons c cs ih =>
    have hc := count_escape c
    rw [List.flatMap_cons, List.count_append, List.count_cons (l := cs)]
    rw [List.count_singleton] at hc
    split at hc
    · rename_i hv
      refine ⟨by omega, fun heq c' hc' => ?_⟩
      rcases List.mem_cons.mp hc' with rfl | hc'
      · exact hv
      · exact ih.2 (by omega) c' hc'
    · exact ⟨by omega, fun heq => by omega⟩

/-- Verbatim characters are found in the escaped name where they are in the name. -/
theorem prefix_escapes (cs : List Char) (h : ∀ c ∈ pre, Verbatim c) :
    pre <+: cs.flatMap escape ↔ pre <+: cs := by
  induction pre generalizing cs with
  | nil => simp
  | cons p pre ih =>
    have hp := h p List.mem_cons_self
    cases cs with
    | nil => simp
    | cons c cs =>
      rw [List.flatMap_cons]
      by_cases hc : Verbatim c
      · rw [escape_of_verbatim hc, List.singleton_append, List.cons_prefix_cons, List.cons_prefix_cons,
          ih cs fun c hc => h c (List.mem_cons_of_mem _ hc)]
      · obtain ⟨rest, heq, -, -⟩ := escape_of_not_verbatim hc
        rw [heq, List.cons_append, List.cons_prefix_cons, List.cons_prefix_cons]
        have hpc : p ≠ c := fun h => hc (h ▸ hp)
        simp [hp.2.2.2, hpc]

/-! ### Arrows -/

def arrow : List Char := " -> ".toList

/-- How often ` -> ` stands in a text. -/
def arrows : List Char → Nat
  | [] => 0
  | c :: cs => (if arrow <+: c :: cs then 1 else 0) + arrows cs

variable {l l' rest a b : List Char}

theorem verbatim_arrow : ∀ c ∈ arrow, Verbatim c := by
  have hall : (arrow.all fun c => Verbatim c) = true := by decide
  exact fun c hc => of_decide_eq_true (List.all_eq_true.mp hall c hc)

theorem afterArrow_cons (c : Char) (cs : List Char) :
    afterArrow (c :: cs) = if arrow <+: c :: cs then some (cs.drop 3) else afterArrow cs := by
  by_cases hp : arrow <+: c :: cs
  · rw [if_pos hp]
    obtain ⟨rest, hrest⟩ := hp
    have hcs : c :: cs = ' ' :: '-' :: '>' :: ' ' :: rest := hrest.symm
    cases hcs
    rfl
  · rw [if_neg hp, afterArrow]
    rintro rest rfl rfl
    exact hp ⟨rest, rfl⟩

theorem arrows_le_of_isSuffix (h : l <:+ l') : arrows l ≤ arrows l' := by
  induction l' with
  | nil => rw [List.suffix_nil.mp h]
  | cons c cs ih =>
    rcases List.suffix_cons_iff.mp h with rfl | h
    · rfl
    · exact (ih h).trans (by simp [arrows])

theorem arrows_concat_of_not_mem (h : x ∉ arrow) : arrows (l ++ [x]) = arrows l := by
  induction l with
  | nil =>
    have : ¬ arrow <+: [x] := fun hp => by have := hp.length_le; simp [arrow] at this
    simp [arrows, this]
  | cons c cs ih =>
    have hprefix : arrow <+: c :: (cs ++ [x]) ↔ arrow <+: c :: cs := by
      rw [← List.cons_append, List.prefix_concat_iff]
      refine ⟨fun hp => hp.resolve_left fun heq => h ?_, .inr⟩
      rw [heq]
      simp
    simp only [List.cons_append, arrows, hprefix, ih]

theorem arrows_le_of_isPrefix (h : l <+: l') : arrows l ≤ arrows l' := by
  induction l' generalizing l with
  | nil => rw [List.prefix_nil.mp h]
  | cons c cs ih =>
    cases l with
    | nil => exact Nat.zero_le _
    | cons d ds =>
      obtain ⟨rfl, hds⟩ := List.cons_prefix_cons.mp h
      have hle := ih hds
      simp only [arrows]
      by_cases hp : arrow <+: d :: ds
      · rw [if_pos hp, if_pos (hp.trans h)]
        omega
      · rw [if_neg hp]
        omega

theorem afterArrow_eq_none : afterArrow l = none ↔ arrows l = 0 := by
  induction l with
  | nil => simp [afterArrow, arrows]
  | cons c cs ih =>
    rw [afterArrow_cons, arrows]
    split <;> simp [ih]

theorem arrows_of_afterArrow (h : afterArrow l = some rest) : arrows rest < arrows l := by
  induction l with
  | nil => cases h
  | cons c cs ih =>
    rw [afterArrow_cons] at h
    rw [arrows]
    split at h
    · rename_i hp
      cases h
      have := arrows_le_of_isSuffix (List.drop_suffix 3 cs)
      rw [if_pos hp]
      omega
    · rename_i hp
      rw [if_neg hp]
      have := ih h
      omega

/-- The arrow that a name without one is followed by is the first. -/
theorem afterArrow_append (h : ' ' ∉ a ∨ arrows a = 0 ∧ a.getLast? = some '"') :
    afterArrow (a ++ arrow ++ b) = some b := by
  induction a with
  | nil =>
    rw [List.nil_append]
    exact afterArrow_cons ' ' ('-' :: '>' :: ' ' :: b)
  | cons c cs ih =>
    have hfirst : ¬ arrow <+: c :: (cs ++ arrow ++ b) := by
      intro hp
      rcases h with hblank | ⟨harrows, hlast⟩
      · have hc := (List.cons_prefix_cons.mp hp).1
        exact hblank (hc ▸ List.mem_cons_self)
      · have hwhole : c :: cs <+: c :: (cs ++ arrow ++ b) := ⟨arrow ++ b, by simp⟩
        rcases List.prefix_or_prefix_of_prefix hp hwhole with hp | hp
        · rw [arrows, if_pos hp] at harrows
          omega
        · have hquote : '"' ∈ c :: cs := List.mem_of_getLast? hlast
          exact absurd (hp.subset hquote) (by decide)
    rw [List.cons_append, List.cons_append, afterArrow_cons, if_neg hfirst]
    cases cs with
    | nil => exact afterArrow_cons ' ' ('-' :: '>' :: ' ' :: b)
    | cons d ds =>
      refine ih (h.imp (fun hblank hmem => hblank (List.mem_cons_of_mem c hmem)) fun hs => ⟨?_, ?_⟩)
      · have harrows := hs.1
        rw [arrows] at harrows
        omega
      · rw [← hs.2, List.getLast?_cons_cons]

theorem arrows_append_of_not_mem (h : ' ' ∉ a) : arrows (a ++ b) = arrows b := by
  induction a with
  | nil => rfl
  | cons c cs ih =>
    have hfirst : ¬ arrow <+: c :: (cs ++ b) := fun hp => by
      have hc := (List.cons_prefix_cons.mp hp).1
      exact h (hc ▸ List.mem_cons_self)
    rw [List.cons_append, arrows, if_neg hfirst, Nat.zero_add]
    exact ih fun hmem => h (List.mem_cons_of_mem c hmem)

theorem arrows_escapes (cs : List Char) : arrows (cs.flatMap escape) = arrows cs := by
  induction cs with
  | nil => rfl
  | cons c cs ih =>
    by_cases hc : Verbatim c
    · have hp := prefix_escapes (c :: cs) verbatim_arrow
      rw [List.flatMap_cons, escape_of_verbatim hc, List.singleton_append] at hp ⊢
      rw [arrows, arrows, ih]
      simp only [hp]
    · obtain ⟨rest, heq, -, hrest⟩ := escape_of_not_verbatim hc
      have hblank : ' ' ∉ escape c := by
        rw [heq]
        intro hmem
        rcases List.mem_cons.mp hmem with h | h
        · exact absurd h (by decide)
        · exact absurd (hrest _ h).1 (by decide)
      have hself : ' ' ∉ [c] := by
        rintro hmem
        exact hc (List.mem_singleton.mp hmem ▸ by decide)
      rw [List.flatMap_cons, arrows_append_of_not_mem hblank, ih, ← List.singleton_append,
        arrows_append_of_not_mem hself]

/-! ### Quoted names -/

theorem quote_cases (name : String) :
    (quote name = name.toList ∧ ' ' ∉ name.toList ∧ ∀ c ∈ name.toList, Verbatim c) ∨
      quote name = '"' :: name.toList.flatMap escape ++ ['"'] := by
  unfold quote
  dsimp only
  split
  · exact .inr rfl
  · rename_i h
    simp only [not_or, not_not] at h
    refine .inl ⟨h.1, h.2, ?_⟩
    exact (count_escapes name.toList).2 (by rw [h.1])

theorem arrows_quote (name : String) : arrows (quote name) = arrows name.toList := by
  rcases quote_cases name with ⟨heq, -, -⟩ | heq
  · rw [heq]
  · have hquote : '"' ∉ arrow := by decide
    rw [heq, arrows_concat_of_not_mem hquote, ← List.singleton_append,
      arrows_append_of_not_mem (by decide), arrows_escapes]

theorem count_quote (name : String) : name.toList.count '\\' ≤ (quote name).count '\\' ∧
    ((quote name).count '\\' = name.toList.count '\\' → ∀ c ∈ name.toList, Verbatim c) := by
  rcases quote_cases name with ⟨heq, -, hverbatim⟩ | heq
  · rw [heq]
    exact ⟨Nat.le_refl _, fun _ => hverbatim⟩
  · have hcount : (quote name).count '\\' = (name.toList.flatMap escape).count '\\' := by
      rw [heq, List.count_append, List.count_cons]
      simp
    rw [hcount]
    exact count_escapes name.toList

theorem sealed_quote (h : arrows name.toList = 0) :
    ' ' ∉ quote name ∨ arrows (quote name) = 0 ∧ (quote name).getLast? = some '"' := by
  rcases quote_cases name with ⟨heq, hblank, -⟩ | heq
  · exact .inl (heq ▸ hblank)
  · rw [heq]
    exact .inr ⟨by rwa [← heq, arrows_quote], List.getLast?_concat⟩

theorem printable_quote (h : x ∈ quote name) : 32 ≤ x.toNat ∧ x.toNat < 127 := by
  rcases quote_cases name with ⟨heq, -, hverbatim⟩ | heq <;> rw [heq] at h
  · exact ⟨(hverbatim x h).1, (hverbatim x h).2.1⟩
  · rcases List.mem_append.mp h with h | h
    · rcases List.mem_cons.mp h with rfl | h
      · decide
      · exact printable_escapes h
    · rw [List.mem_singleton.mp h]
      decide

theorem quote_ne_nil (h : name ≠ "") : quote name ≠ [] := by
  rcases quote_cases name with ⟨heq, -, -⟩ | heq <;> rw [heq]
  · simpa using h
  · simp

/-- A quoted name has no blank at either end. -/
theorem edge_quote (h : x ∈ (quote name).head? ∨ x ∈ (quote name).getLast?) : isSpace x = false := by
  have hends : x ≠ ' ' ∧ 32 ≤ x.toNat ∧ x.toNat < 127 := by
    rcases quote_cases name with ⟨heq, hblank, hverbatim⟩ | heq <;> rw [heq] at h
    · have hmem : x ∈ name.toList := h.elim List.mem_of_head? List.mem_of_getLast?
      exact ⟨fun hx => hblank (hx ▸ hmem), (hverbatim x hmem).1, (hverbatim x hmem).2.1⟩
    · have hx : x = '"' := by
        rw [List.getLast?_concat] at h
        simpa [eq_comm] using h
      rw [hx]
      decide
  have hne : x.toNat ≠ 32 := fun h => hends.1 (eq_of_toNat h)
  simp only [isSpace, Bool.or_eq_false_iff, Bool.and_eq_false_iff, decide_eq_false_iff_not,
    beq_eq_false_iff_ne]
  omega

end KeelsonDocker.GitStatus
