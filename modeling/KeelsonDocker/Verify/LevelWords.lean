import KeelsonDocker.LogsFollower

/-!
# Levels and words

A level is read from a word that stands alone in the line exactly when the match is not the front of a
longer word that the 48th character cuts off, and no token before it was passed over because of one of the
letters outside ASCII that match one inside (`standaloneOnly_iff`).
-/

namespace KeelsonDocker

/-! ### The leftmost match -/

/-- No letter stands right before `i`. -/
def opensWord (letter : Char → Bool) (chars : List Char) : Nat → Bool
  | 0 => true
  | i + 1 => chars[i]?.any (!letter ·)

/-- The leftmost of the places that no letter stands before where `here` matches. -/
structure Leftmost (here : List Char → Option LogLevel) (chars : List Char) (i : Nat)
    (level : LogLevel) : Prop where
  opens : opensWord isLetter chars i = true
  found : here (chars.drop i) = some level
  first : ∀ j < i, opensWord isLetter chars j = true → here (chars.drop j) = none

variable {here : List Char → Option LogLevel} {chars : List Char} {level : LogLevel} {i : Nat}

theorem search_eq_or : search here chars = (here chars).or (searchFrom here chars) :=
  Option.orElse_eq_or

theorem searchFrom_cons {c : Char} : searchFrom here (c :: chars) =
    (if isLetter c then none else here chars).or (searchFrom here chars) :=
  Option.orElse_eq_or

theorem searchFrom_eq_some (h : searchFrom here chars = some level) :
    ∃ i, opensWord isLetter chars (i + 1) = true ∧ here (chars.drop (i + 1)) = some level ∧
      ∀ j < i, opensWord isLetter chars (j + 1) = true → here (chars.drop (j + 1)) = none := by
  induction chars with
  | nil => cases h
  | cons c chars ih =>
    rw [searchFrom_cons] at h
    cases Option.or_eq_some_iff.mp h with
    | inl hhere =>
      split at hhere
      · cases hhere
      · rename_i hc
        exact ⟨0, by simpa [opensWord] using hc, hhere, fun j hj => absurd hj (Nat.not_lt_zero j)⟩
    | inr hlater =>
      obtain ⟨hnone, hlater⟩ := hlater
      obtain ⟨i, hopens, hhere, hfirst⟩ := ih hlater
      refine ⟨i + 1, hopens, hhere, fun j hj hj' => ?_⟩
      cases j with
      | zero =>
        have hc : isLetter c = false := by simpa [opensWord] using hj'
        rwa [if_neg (by simp [hc])] at hnone
      | succ j => exact hfirst j (Nat.lt_of_succ_lt_succ hj) hj'

theorem search_eq_some (h : search here chars = some level) : ∃ i, Leftmost here chars i level := by
  rw [search_eq_or] at h
  obtain hhere | ⟨hnone, hfrom⟩ := Option.or_eq_some_iff.mp h
  · exact ⟨0, rfl, hhere, fun j hj => absurd hj (Nat.not_lt_zero j)⟩
  · obtain ⟨i, hopens, hhere, hfirst⟩ := searchFrom_eq_some hfrom
    refine ⟨i + 1, hopens, hhere, fun j hj hj' => ?_⟩
    cases j with
    | zero => exact hnone
    | succ j => exact hfirst j (Nat.lt_of_succ_lt_succ hj) hj'

theorem searchFrom_ne_none (hopens : opensWord isLetter chars (i + 1) = true)
    (hfound : here (chars.drop (i + 1)) ≠ none) : searchFrom here chars ≠ none := by
  induction chars generalizing i with
  | nil => simp [opensWord] at hopens
  | cons c chars ih =>
    rw [searchFrom_cons]
    intro hnone
    obtain ⟨hnone, hlater⟩ := Option.or_eq_none_iff.mp hnone
    cases i with
    | zero =>
      have hc : isLetter c = false := by simpa [opensWord] using hopens
      rw [hc] at hnone
      exact hfound hnone
    | succ i => exact ih hopens hfound hlater

theorem search_ne_none (hopens : opensWord isLetter chars i = true)
    (hfound : here (chars.drop i) ≠ none) : search here chars ≠ none := by
  rw [search_eq_or]
  intro hnone
  obtain ⟨hnone, hlater⟩ := Option.or_eq_none_iff.mp hnone
  cases i with
  | zero => exact hfound hnone
  | succ i => exact searchFrom_ne_none hopens hfound hlater

theorem Leftmost.unique (h : Leftmost here chars i level) {j : Nat} {level' : LogLevel}
    (h' : Leftmost here chars j level') : i = j ∧ level = level' := by
  have heq : i = j := by
    obtain hlt | heq | hlt := Nat.lt_trichotomy i j
    · cases h.found.symm.trans (h'.first i hlt h.opens)
    · exact heq
    · cases h'.found.symm.trans (h.first j hlt h'.opens)
  cases heq
  exact ⟨rfl, Option.some.inj (h.found.symm.trans h'.found)⟩

/-! ### Tokens in a line -/

theorem isAlpha_iff {c : Char} : c.isAlpha = true ↔
    65 ≤ c.toNat ∧ c.toNat ≤ 90 ∨ 97 ≤ c.toNat ∧ c.toNat ≤ 122 := by
  change (decide ('A'.val ≤ c.val ∧ c.val ≤ 'Z'.val) ||
    (decide ('a'.val ≤ c.val) && decide (c.val ≤ 'z'.val))) = true ↔ _
  simp only [Bool.or_eq_true, Bool.and_eq_true, decide_eq_true_eq, UInt32.le_iff_toNat_le]
  rfl

theorem isLetter_of_isAlpha {c : Char} (h : c.isAlpha = true) : isLetter c = true := by
  have hlt : c.toNat < 128 := by
    have := isAlpha_iff.mp h
    omega
  have hall : ∀ n < 128, (Char.ofNat n).isAlpha = true → isLetter (Char.ofNat n) = true := by
    decide
  rw [← Char.ofNat_toNat c] at h ⊢
  exact hall _ hlt h

/-- Four letters outside ASCII match one of three inside. -/
theorem foldCase_of_not_isAlpha {c : Char} (h : isLetter c = true) (h' : ¬ c.isAlpha = true) :
    foldCase c ∈ ['I', 'S', 'K'] := by
  unfold isLetter at h
  unfold foldCase at h ⊢
  split
  · simp
  split
  · simp
  split
  · simp
  rename_i hi hs hk
  rw [if_neg hi, if_neg hs, if_neg hk] at h
  -- Any other letter is one of ASCII.
  rw [isAlpha_iff] at h'
  have hplain : c.toUpper = c := by
    apply dif_neg
    change ¬ (97 ≤ c.toNat ∧ c.toNat ≤ 122)
    omega
  rw [hplain, Bool.and_eq_true, decide_eq_true_eq, decide_eq_true_eq] at h
  change 65 ≤ c.toNat ∧ c.toNat ≤ 90 at h
  omega

/-- A token of the table that is written at `i` in the line, with the level that the table has for it. -/
structure Token (chars : List Char) (i : Nat) (token : String) (level : LogLevel) : Prop where
  written : ((chars.drop i).take token.length).map foldCase = token.toList
  listed : ∃ listed, (token, listed) ∈ levels ∧
    level = if ((chars.drop i).take token.length).contains 'İ' then .info else listed

namespace Token

variable {token : String} (h : Token chars i token level)
include h

theorem mem : token ∈ levels.map Prod.fst := by
  obtain ⟨listed, hlisted, -⟩ := h.listed
  exact List.mem_map.mpr ⟨_, hlisted, rfl⟩

theorem length_pos : 0 < token.length := by
  have hall : ∀ token ∈ levels.map Prod.fst, 0 < token.length := by decide
  exact hall token h.mem

theorem length_le : i + token.length ≤ chars.length := by
  have hlength := congrArg List.length h.written
  rw [List.length_map, List.length_take, List.length_drop, String.length_toList] at hlength
  have := h.length_pos
  omega

theorem getElem? {k : Nat} (hk : k < token.length) :
    (chars[i + k]?).map foldCase = token.toList[k]? := by
  rw [← h.written, List.getElem?_map, List.getElem?_take_of_lt hk, List.getElem?_drop]

/-- All that is written there is letters. -/
theorem letter {k : Nat} (hk : k < token.length) : ∃ c, chars[i + k]? = some c ∧ isLetter c = true := by
  have hall : (levels.map Prod.fst).all (fun token =>
      token.toList.all fun x => 'A' ≤ x && x ≤ 'Z') = true := by
    decide
  have hk' : k < token.toList.length := by rwa [String.length_toList]
  have hc := h.getElem? hk
  rw [List.getElem?_eq_getElem hk'] at hc
  obtain ⟨c, hc, hfold⟩ := Option.map_eq_some_iff.mp hc
  have hbetween := List.all_eq_true.mp (List.all_eq_true.mp hall token h.mem) _ (List.getElem_mem hk')
  rw [← hfold] at hbetween
  exact ⟨c, hc, hbetween⟩

/-- Where a word opens behind a token, the token has ended before the character in front of it. -/
theorem length_lt {i' : Nat} (hlt : i < i') (hopens : opensWord isLetter chars i' = true) :
    i + token.length < i' := by
  by_contra hle
  obtain ⟨k, rfl⟩ := Nat.exists_eq_add_of_lt hlt
  obtain ⟨c, hc, hletter⟩ := h.letter (k := k) (by omega)
  simp [opensWord, hc, hletter] at hopens

end Token

/-- A token that stands alone: no letter right before it and none right behind it. -/
structure Alone (letter : Char → Bool) (chars : List Char) (i : Nat) (token : String)
    (level : LogLevel) : Prop extends Token chars i token level where
  opens : opensWord letter chars i = true
  closes : ∀ c ∈ chars[i + token.length]?, letter c = false

theorem opensWord_mono {letter letter' : Char → Bool} (h : ∀ c, letter' c = true → letter c = true)
    (hopens : opensWord letter chars i = true) : opensWord letter' chars i = true := by
  cases i with
  | zero => rfl
  | succ i =>
    simp only [opensWord, Option.any_eq_true] at hopens ⊢
    obtain ⟨c, hc, hletter⟩ := hopens
    exact ⟨c, hc, by grind⟩

theorem Alone.ascii {token : String} (h : Alone isLetter chars i token level) :
    Alone Char.isAlpha chars i token level where
  toToken := h.toToken
  opens := opensWord_mono (fun _ => isLetter_of_isAlpha) h.opens
  closes c hc := Bool.eq_false_iff.mpr fun halpha =>
    Bool.eq_false_iff.mp (h.closes c hc) (isLetter_of_isAlpha halpha)

/-! ### What the expressions match -/

theorem severityAt_eq_some (h : severityAt (chars.drop i) = some level) :
    ∃ token, Token chars i token level ∧ ∀ c ∈ chars[i + token.length]?, isLetter c = false := by
  obtain ⟨⟨token, listed⟩, hlisted, hsome⟩ := List.exists_of_findSome?_eq_some h
  dsimp only [afterToken] at hsome
  split at hsome
  · rename_i rest hrest
    split at hrest
    · rename_i hwritten
      cases hrest
      split at hsome
      · cases hsome
      · rename_i hbehind
        refine ⟨token, ⟨hwritten, listed, hlisted, (Option.some.inj hsome).symm⟩, fun c hc => ?_⟩
        rw [List.drop_drop, List.head?_drop, Option.mem_def.mp hc] at hbehind
        simpa using hbehind
    · cases hrest
  · cases hsome

theorem severityAt_ne_none {token : String} (h : Token chars i token level)
    (hbehind : ∀ c ∈ chars[i + token.length]?, isLetter c = false) :
    severityAt (chars.drop i) ≠ none := by
  intro hnone
  obtain ⟨listed, hlisted, -⟩ := h.listed
  have hsome := List.findSome?_eq_none_iff.mp hnone (token, listed) hlisted
  have hhead : chars[i + token.length]?.any isLetter = false := by
    cases hc : chars[i + token.length]? with
    | none => rfl
    | some c => exact hbehind c hc
  simp [afterToken, h.written, hhead] at hsome

theorem afterToken_append {token : String} {text rest : List Char}
    (h : afterToken token text = some rest) (more : List Char) :
    afterToken token (text ++ more) = some (rest ++ more) := by
  unfold afterToken at h
  split at h
  · rename_i hwritten
    cases h
    have hlength : token.length ≤ text.length := by
      have := congrArg List.length hwritten
      rw [List.length_map, List.length_take, String.length_toList] at this
      omega
    rw [afterToken, List.take_append_of_le_length hlength, List.drop_append_of_le_length hlength,
      if_pos hwritten]
  · cases h

theorem panicAt_append {text : List Char} (h : panicAt text = some level) (more : List Char) :
    panicAt (text ++ more) = some level := by
  unfold panicAt at h
  split at h
  · rename_i rest hrest
    split at h
    · rename_i hcolon
      have hne : rest.dropWhile isSpace ≠ [] := by
        intro hnil
        rw [hnil] at hcolon
        cases hcolon
      have hcolon' : ((rest ++ more).dropWhile isSpace).head? = some ':' := by
        rw [List.dropWhile_append, if_neg (by simpa using hne), List.head?_append, hcolon]
        rfl
      cases h
      simp only [panicAt, afterToken_append hrest more, hcolon', if_true]
    · cases h
  · cases h

/-! ### The window -/

theorem opensWord_take {n : Nat} (hle : i ≤ n) {letter : Char → Bool} :
    opensWord letter (chars.take n) i = opensWord letter chars i := by
  cases i with
  | zero => rfl
  | succ i => rw [opensWord, opensWord, List.getElem?_take_of_lt hle]

theorem token_take {n : Nat} {token : String} (hle : i + token.length ≤ n) :
    Token (chars.take n) i token level ↔ Token chars i token level := by
  have hsame : ((chars.take n).drop i).take token.length = (chars.drop i).take token.length := by
    rw [List.drop_take, List.take_take, Nat.min_eq_left (by omega)]
  constructor
  · intro h
    exact ⟨hsame ▸ h.written, hsame ▸ h.listed⟩
  · intro h
    exact ⟨hsame ▸ h.written, hsame ▸ h.listed⟩

theorem Leftmost.token (h : Leftmost severityAt (chars.take 48) i level) :
    ∃ token, Token chars i token level ∧ i + token.length ≤ 48 ∧ opensWord isLetter chars i = true ∧
      ∀ c ∈ (chars.take 48)[i + token.length]?, isLetter c = false := by
  obtain ⟨token, htoken, hbehind⟩ := severityAt_eq_some h.found
  have hle : i + token.length ≤ 48 := htoken.length_le.trans (List.length_take_le ..)
  have hopens := h.opens
  rw [opensWord_take (by omega)] at hopens
  exact ⟨token, (token_take hle).mp htoken, hle, hopens, hbehind⟩

/-- A token that no letter touches is found, if it is in front of the match. -/
theorem Leftmost.not_alone (h : Leftmost severityAt (chars.take 48) i level) {j : Nat} (hlt : j < i)
    {token : String} {level' : LogLevel} : ¬ Alone isLetter chars j token level' := by
  intro halone
  obtain ⟨token', htoken', hle', hopens, -⟩ := h.token
  have hend := halone.toToken.length_lt hlt hopens
  have hwindow := (token_take (n := 48) (by omega)).mpr halone.toToken
  refine severityAt_ne_none hwindow ?_ (h.first j hlt ?_)
  · rw [List.getElem?_take_of_lt (by omega)]
    exact halone.closes
  · rw [opensWord_take (by omega)]
    exact halone.opens

/-- A match stands alone in the line, unless the window ends with it and the line goes on with a letter. -/
theorem Leftmost.alone_or (h : Leftmost severityAt (chars.take 48) i level) :
    (∃ token, Alone Char.isAlpha chars i token level) ∨
    (∃ token ∈ levels.map Prod.fst, ((chars.take 48).drop i).map foldCase = token.toList) ∧
      ∃ c ∈ chars[48]?, c.isAlpha = true := by
  obtain ⟨token, htoken, hle, hopens, hbehind⟩ := h.token
  by_cases hcloses : ∀ c ∈ chars[i + token.length]?, c.isAlpha = false
  · exact .inl ⟨token, htoken, opensWord_mono (fun _ => isLetter_of_isAlpha) hopens, hcloses⟩
  · simp only [not_forall, Bool.not_eq_false] at hcloses
    obtain ⟨c, hc, halpha⟩ := hcloses
    have hend : i + token.length = 48 := by
      by_contra hne
      have hletter := hbehind c (by rwa [List.getElem?_take_of_lt (by omega)])
      rw [isLetter_of_isAlpha halpha] at hletter
      cases hletter
    refine .inr ⟨⟨token, htoken.mem, ?_⟩, c, hend ▸ hc, halpha⟩
    rw [List.drop_take, show 48 - i = token.length by omega]
    exact htoken.written

/-- No token opens inside of another one. -/
theorem Token.not_inside {token token' : String} {level' : LogLevel} {j : Nat}
    (h : Token chars i token level) (h' : Token chars j token' level') (hlt : i < j)
    (hlt' : j < i + token.length) : opensWord Char.isAlpha chars j = false := by
  have hall : ∀ token ∈ levels.map Prod.fst, ∀ token' ∈ levels.map Prod.fst,
      ∀ k < token.length - 1, token.toList[k]? ∈ [some 'I', some 'S', some 'K'] →
        k + 2 < token.length ∧ 1 < token'.length ∧
          (token.toList.drop (k + 1)).take 2 ≠ token'.toList.take 2 := by
    decide
  obtain ⟨k, rfl⟩ := Nat.exists_eq_add_of_lt hlt
  obtain ⟨c, hc, hletter⟩ := h.letter (k := k) (by omega)
  rw [opensWord, hc, Option.any_some, Bool.not_eq_false']
  by_contra halpha
  have hfold := h.getElem? (k := k) (by omega)
  rw [hc, Option.map_some] at hfold
  have hspecial : token.toList[k]? ∈ [some 'I', some 'S', some 'K'] := by
    rw [← hfold]
    simpa using foldCase_of_not_isAlpha hletter halpha
  obtain ⟨hlonger, hlonger', hdiffer⟩ :=
    hall token h.mem token' h'.mem k (by omega) hspecial
  apply hdiffer
  rw [← h.written, ← h'.written, ← List.map_drop, ← List.map_take, ← List.map_take, List.drop_take,
    List.drop_drop, List.take_take, List.take_take, Nat.min_eq_left (by omega),
    Nat.min_eq_left (by omega), Nat.add_assoc]

/-! ### Lines -/

/-- A level other than INFO comes from a token that stands alone in the line, or from `panic:`; where that
is not found, from the leftmost of the tokens. -/
structure StandaloneOnly (text : String) : Prop where
  word : sniffLevel text ≠ .info →
    (∃ i < 48, ∃ token level, Alone Char.isAlpha text.toList i token level) ∨
    ∃ i < 48, opensWord Char.isAlpha text.toList i = true ∧ (panicAt (text.toList.drop i)).isSome
  leftmost : sniffLevel text ≠ .info → search panicAt (text.toList.take 48) = none →
    ∃ i < 48, (∃ token, Alone Char.isAlpha text.toList i token (sniffLevel text)) ∧
      ∀ j < i, ∀ token level, ¬ Alone Char.isAlpha text.toList j token level

/-- A token with no ASCII letter at its ends, but with one of those that match one. -/
structure Touched (chars : List Char) (i : Nat) (token : String) (level : LogLevel) : Prop extends
    Alone Char.isAlpha chars i token level where
  touched : ¬ Alone isLetter chars i token level

/-- The window ends with a token and the line goes on with a letter, but not to another token of the
level. -/
structure CutOff (chars : List Char) (i : Nat) (level : LogLevel) : Prop where
  token : ∃ token ∈ levels.map Prod.fst, ((chars.take 48).drop i).map foldCase = token.toList
  goesOn : ∃ c ∈ chars[48]?, c.isAlpha = true
  word : ∀ token, ¬ Alone Char.isAlpha chars i token level

/-- The match is the front of no longer word, and no token in front of it was passed over, unless the
leftmost one has the level of the match. -/
def SeesWhole (text : String) : Prop :=
  search panicAt (text.toList.take 48) = none →
    ∀ i level, Leftmost severityAt (text.toList.take 48) i level → level ≠ .info →
      (∃ j < i, (∃ token, Touched text.toList j token level) ∧
        ∀ k < j, ∀ token level, ¬ Touched text.toList k token level) ∨
      (∀ j < i, ∀ token level, ¬ Touched text.toList j token level) ∧ ¬ CutOff text.toList i level

variable {text : String}

theorem sniffLevel_eq (hpanic : search panicAt (text.toList.take 48) = none) :
    sniffLevel text = (search severityAt (text.toList.take 48)).getD .info := by
  simp [sniffLevel, hpanic]

theorem sniffLevel_of_leftmost (hpanic : search panicAt (text.toList.take 48) = none)
    (h : Leftmost severityAt (text.toList.take 48) i level) : sniffLevel text = level := by
  have hsome : search severityAt (text.toList.take 48) ≠ none :=
    search_ne_none h.opens (by simp [h.found])
  obtain ⟨level', hlevel'⟩ := Option.ne_none_iff_exists'.mp hsome
  obtain ⟨i', h'⟩ := search_eq_some hlevel'
  rw [sniffLevel_eq hpanic, hlevel', (h.unique h').2]
  rfl

theorem exists_leftmost (hpanic : search panicAt (text.toList.take 48) = none)
    (h : sniffLevel text ≠ .info) :
    ∃ i, Leftmost severityAt (text.toList.take 48) i (sniffLevel text) := by
  rw [sniffLevel_eq hpanic] at h ⊢
  cases hlevel : search severityAt (text.toList.take 48) with
  | none => exact absurd (by rw [hlevel]; rfl) h
  | some level => exact search_eq_some hlevel

theorem exists_panic (h : search panicAt (text.toList.take 48) ≠ none) :
    ∃ i < 48, opensWord Char.isAlpha text.toList i = true ∧
      (panicAt (text.toList.drop i)).isSome := by
  obtain ⟨level, hlevel⟩ := Option.ne_none_iff_exists'.mp h
  obtain ⟨i, hleft⟩ := search_eq_some hlevel
  have hlt : i < (text.toList.take 48).length := by
    by_contra hle
    have hfound := hleft.found
    rw [List.drop_eq_nil_of_le (Nat.le_of_not_lt hle)] at hfound
    cases hfound
  have hle := Nat.lt_of_lt_of_le hlt (List.length_take_le ..)
  have hopens := hleft.opens
  rw [opensWord_take (Nat.le_of_lt hle)] at hopens
  have hfound := panicAt_append hleft.found (text.toList.drop 48)
  rw [← List.drop_append_of_le_length (Nat.le_of_lt hlt), List.take_append_drop] at hfound
  exact ⟨i, hle, opensWord_mono (fun _ => isLetter_of_isAlpha) hopens, by rw [hfound]; rfl⟩

theorem SeesWhole.leftmost (h : SeesWhole text) (hinfo : sniffLevel text ≠ .info)
    (hpanic : search panicAt (text.toList.take 48) = none) :
    ∃ i < 48, (∃ token, Alone Char.isAlpha text.toList i token (sniffLevel text)) ∧
      ∀ j < i, ∀ token level, ¬ Alone Char.isAlpha text.toList j token level := by
  obtain ⟨i, hleft⟩ := exists_leftmost hpanic hinfo
  obtain ⟨_, htoken, hle, -⟩ := hleft.token
  have hpos := htoken.length_pos
  have halone {j : Nat} (hlt : j < i) (hnone : ∀ token level, ¬ Touched text.toList j token level)
      (token : String) (level : LogLevel) : ¬ Alone Char.isAlpha text.toList j token level :=
    fun halone => hnone token level ⟨halone, hleft.not_alone hlt⟩
  cases h hpanic i _ hleft hinfo with
  | inl hpassed =>
    obtain ⟨j, hlt, ⟨token, htouched⟩, hfirst⟩ := hpassed
    exact ⟨j, by omega, ⟨token, htouched.toAlone⟩, fun k hk =>
      halone (hk.trans hlt) (hfirst k hk)⟩
  | inr hmatch =>
    obtain ⟨hfirst, hwhole⟩ := hmatch
    refine ⟨i, by omega, ?_, fun j hj => halone hj (hfirst j hj)⟩
    obtain halone | ⟨hcut, hgoes⟩ := hleft.alone_or
    · exact halone
    · by_contra hnot
      exact hwhole ⟨hcut, hgoes, not_exists.mp hnot⟩

/-- What is cut off reaches to the end of the window. -/
theorem CutOff.reaches (h : CutOff chars i level) :
    ∃ token level', Token chars i token level' ∧ i + token.length = 48 := by
  obtain ⟨token, hmem, hwritten⟩ := h.token
  obtain ⟨c, hc, -⟩ := h.goesOn
  obtain ⟨⟨token, listed⟩, hlisted, rfl⟩ := List.mem_map.mp hmem
  dsimp only at hmem hwritten
  have hlength := congrArg List.length hwritten
  have hlonger := (List.getElem?_eq_some_iff.mp hc).1
  have hpos : ∀ token ∈ levels.map Prod.fst, 0 < token.length := by decide
  have := hpos token hmem
  rw [List.length_map, List.length_drop, List.length_take, String.length_toList] at hlength
  have hend : i + token.length = 48 := by omega
  refine ⟨token, _, ⟨?_, listed, hlisted, rfl⟩, hend⟩
  rw [← hwritten, List.drop_take, show 48 - i = token.length by omega]

theorem StandaloneOnly.seesWhole (h : StandaloneOnly text) : SeesWhole text := by
  intro hpanic i level hleft hinfo
  have hsniff := sniffLevel_of_leftmost hpanic hleft
  obtain ⟨i', hlt, ⟨token, halone⟩, hfirst⟩ := h.leftmost (hsniff ▸ hinfo) hpanic
  rw [hsniff] at halone
  have hnone {j : Nat} (hj : j < i') (token : String) (level : LogLevel) :
      ¬ Touched text.toList j token level :=
    fun htouched => hfirst j hj token level htouched.toAlone
  obtain hbefore | rfl | hbehind := Nat.lt_trichotomy i' i
  · exact .inl ⟨i', hbefore, ⟨token, halone, hleft.not_alone hbefore⟩, fun _ => hnone⟩
  · exact .inr ⟨fun _ => hnone, fun hcut => hcut.word token halone⟩
  · refine .inr ⟨fun _ hj => hnone (hj.trans hbehind), fun hcut => ?_⟩
    obtain ⟨_, _, htoken, hend⟩ := hcut.reaches
    have hinside := htoken.not_inside halone.toToken hbehind (by omega)
    cases hinside.symm.trans halone.opens

theorem standaloneOnly_iff : StandaloneOnly text ↔ SeesWhole text := by
  constructor
  · exact StandaloneOnly.seesWhole
  · intro h
    refine ⟨fun hinfo => ?_, h.leftmost⟩
    by_cases hpanic : search panicAt (text.toList.take 48) = none
    · obtain ⟨i, hlt, ⟨token, halone⟩, -⟩ := h.leftmost hinfo hpanic
      exact .inl ⟨i, hlt, token, _, halone⟩
    · exact .inr (exists_panic hpanic)

/-! ### A word at the end of the window -/

/-- The window ends with the first three letters of the last word. -/
def erratum : String := "2026-01-01 12:00:00 [worker-1] reprinting an erratum"

example : sniffLevel erratum = .error := by decide +kernel

theorem not_standaloneOnly_erratum : ¬ StandaloneOnly erratum := by
  intro h
  have hlevel : sniffLevel erratum ≠ .info := by decide +kernel
  -- The one token in the line goes on with a letter.
  have halone : ((List.range 48).all fun i => (levels.map Prod.fst).all fun token =>
      ((erratum.toList.drop i).take token.length).map foldCase != token.toList ||
        erratum.toList[i + token.length]?.any Char.isAlpha) = true := by
    decide +kernel
  have hpanic : ((List.range 48).all fun i => (panicAt (erratum.toList.drop i)).isNone) = true := by
    decide +kernel
  obtain ⟨i, hlt, token, level, hword⟩ | ⟨i, hlt, -, hsome⟩ := h.word hlevel
  · have hfollowed := List.all_eq_true.mp (List.all_eq_true.mp halone i (List.mem_range.mpr hlt)) token
      hword.mem
    rw [hword.written, bne_self_eq_false, Bool.false_or, Option.any_eq_true] at hfollowed
    obtain ⟨c, hc, halpha⟩ := hfollowed
    cases (hword.closes c hc).symm.trans halpha
  · have hnone := List.all_eq_true.mp hpanic i (List.mem_range.mpr hlt)
    rw [Option.isNone_iff_eq_none.mp hnone] at hsome
    cases hsome

end KeelsonDocker
