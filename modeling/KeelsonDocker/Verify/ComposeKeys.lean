import KeelsonDocker.Verify.ComposeTour
import KeelsonDocker.Verify.Splicing

/-!
# The keys of a mapping at its turn

Where keys are scalars, what a mapping's own keys give is seen from the nodes as they stand at its turn:
going through them changes no node, and splicing leaves scalars alone. So the first thing wrong with a
document is a key that is there again exactly if a mapping has its turn whose keys have one again, before
anything else is wrong (`firstFault_keyAgain_iff`).
-/

namespace KeelsonDocker.PlatformRepo

open Effect Yaml

/-! ### What keys give -/

section

variable {ι κ : Type} (L : Library κ)

/-- The scalar that a key gives. -/
def keyScalar (nodes : Nodes ι) (key : ι) : Option κ :=
  if constructorFor (nodes key).tag = .scalar then (constructScalar L nodes key).toOption else none

/-- What keys give, but for merge keys. -/
def ownScalars (nodes : Nodes ι) (pairs : List (ι × ι)) : List (Option κ) :=
  (pairs.filter fun pair => !nodes.isMerge pair).map fun pair => keyScalar L nodes pair.1

/-- What a mapping's own keys give. -/
def keyScalars (nodes : Nodes ι) (m : ι) : List (Option κ) := ownScalars L nodes (nodes.pairs m)

/-- One of these scalars is there again and can be shown; those before it are there, each once. -/
def KeyAgain (scalars : List (Option κ)) : Prop :=
  ∃ (seen : List κ) (k : κ) (rest : List (Option κ)), scalars = seen.map some ++ some k :: rest ∧
    seen.Nodup ∧ k ∈ seen ∧ ∃ shown, L.repr k = .ok shown

variable {L} {nodes nodes' : Nodes ι}

theorem keyScalar_congr {key : ι} {text : String} (hkey : (nodes key).content = .scalar text)
    (h : nodes' key = nodes key) : keyScalar L nodes' key = keyScalar L nodes key := by
  simp [keyScalar, constructScalar, scalarText, h, hkey, bind, Except.bind]

/-- What a key gives it is written to give. -/
theorem keyScalar_asKeys {key : ι} {text : String} {k : κ} (hkey : (nodes key).content = .scalar text)
    (h : keyScalar L nodes key = some k) : keyScalar L nodes.asKeys key = some k := by
  have htag : (nodes key).tag ≠ VALUE := by
    intro hvalue
    rw [keyScalar, hvalue, if_neg (by decide)] at h
    cases h
  rw [keyScalar_congr hkey (if_neg htag), h]

theorem KeyAgain.asKeys {m : ι} (hkeys : ∀ pair ∈ nodes.pairs m, (nodes pair.1).content.isScalar)
    (h : KeyAgain L (keyScalars L nodes m)) : KeyAgain L (keyScalars L nodes.asKeys m) := by
  obtain ⟨seen, k, rest, hscalars, hseen, hk, hshown⟩ := h
  obtain ⟨before, later, hown, hbefore, hlater⟩ := List.map_eq_append_iff.mp hscalars
  obtain ⟨pair, later, rfl, hpair, rfl⟩ := List.map_eq_cons_iff.mp hlater
  have hgives {own : ι × ι} {k' : κ} (hmem : own ∈ before ++ pair :: later)
      (h : keyScalar L nodes own.1 = some k') : keyScalar L nodes.asKeys own.1 = some k' := by
    rw [← hown] at hmem
    obtain ⟨text, htext⟩ := Content.isScalar_iff.mp (hkeys own (List.mem_of_mem_filter hmem))
    exact keyScalar_asKeys htext h
  refine ⟨seen, k, later.map fun pair => keyScalar L nodes.asKeys pair.1, ?_, hseen, hk, hshown⟩
  have hown' : keyScalars L nodes.asKeys m =
      (before ++ pair :: later).map fun pair => keyScalar L nodes.asKeys pair.1 := by
    simp only [keyScalars, ownScalars, Nodes.pairs_asKeys, Nodes.isMerge_asKeys, hown]
  rw [hown', List.map_append, List.map_cons, hgives (by simp) hpair, ← hbefore]
  congr 1
  apply List.map_congr_left
  intro own hmem
  have hgiven : keyScalar L nodes own.1 ∈ seen.map some := hbefore ▸ List.mem_map_of_mem hmem
  obtain ⟨k', -, hk'⟩ := List.mem_map.mp hgiven
  rw [← hk']
  exact hgives (List.mem_append_left _ hmem) hk'.symm

theorem ownScalars_of_merge {pair : ι × ι} {pairs : List (ι × ι)} (h : nodes.isMerge pair = true) :
    ownScalars L nodes (pair :: pairs) = ownScalars L nodes pairs := by
  rw [ownScalars, List.filter_cons_of_neg (by simp [h]), ownScalars]

theorem ownScalars_of_own {pair : ι × ι} {pairs : List (ι × ι)} (h : nodes.isMerge pair = false) :
    ownScalars L nodes (pair :: pairs) = keyScalar L nodes pair.1 :: ownScalars L nodes pairs := by
  rw [ownScalars, List.filter_cons_of_pos (by simp [h]), List.map_cons, ownScalars]

section

variable {before seen : List κ} {scalars rest : List (Option κ)} {k : κ}

/-- Scalars that are there once each come before one that is there again. -/
theorem exists_more (hbefore : before.Nodup) (hk : k ∈ seen)
    (h : before.map some ++ scalars = seen.map some ++ some k :: rest) :
    ∃ more, seen = before ++ more ∧ scalars = more.map some ++ some k :: rest := by
  rcases List.append_eq_append_iff.mp h with ⟨later, hseen, hscalars⟩ | ⟨later, hbefore', hscalars⟩
  · obtain ⟨_, more, rfl, hfirst, rfl⟩ := List.map_eq_append_iff.mp hseen
    rw [List.map_inj_right fun _ _ => Option.some.inj] at hfirst
    exact ⟨more, by rw [hfirst], hscalars⟩
  · obtain ⟨_, more, rfl, hfirst, rfl⟩ := List.map_eq_append_iff.mp hbefore'
    rw [List.map_inj_right fun _ _ => Option.some.inj] at hfirst
    cases more with
    | nil => exact ⟨[], by simp [hfirst], by simpa using hscalars.symm⟩
    | cons k' more =>
      cases hscalars
      rw [hfirst] at hbefore
      exact absurd rfl ((List.nodup_append.mp hbefore).2.2 k hk k List.mem_cons_self)

theorem not_keyAgain_nil (hbefore : before.Nodup) : ¬ KeyAgain L (before.map some) := by
  rintro ⟨seen, k, rest, h, -, hk, -⟩
  rw [← List.append_nil (before.map some)] at h
  obtain ⟨more, -, hmore⟩ := exists_more hbefore hk h
  simp at hmore

theorem not_keyAgain_none (hbefore : before.Nodup) : ¬ KeyAgain L (before.map some ++ none :: scalars) := by
  rintro ⟨seen, k, rest, h, -, hk, -⟩
  obtain ⟨more, -, hmore⟩ := exists_more hbefore hk h
  cases more <;> cases hmore

theorem keyAgain_iff_of_mem (hbefore : before.Nodup) (hk : k ∈ before) :
    KeyAgain L (before.map some ++ some k :: scalars) ↔ ∃ shown, L.repr k = .ok shown := by
  refine ⟨?_, fun hshown => ⟨before, k, scalars, rfl, hbefore, hk, hshown⟩⟩
  rintro ⟨seen, k', rest, h, hseen, hk', hshown⟩
  obtain ⟨more, rfl, hmore⟩ := exists_more hbefore hk' h
  cases more with
  | nil =>
    cases hmore
    exact hshown
  | cons =>
    cases hmore
    exact absurd rfl ((List.nodup_append.mp hseen).2.2 k hk k List.mem_cons_self)

end

end

/-! ### What has been settled on the way -/

section

variable {ι κ : Type} (L : Library κ)

/-- Within these nodes, mappings by their tags, a scalar that has had its turn gave what it gives as a key. -/
structure Settled (within : List ι) (p : Progress ι κ) : Prop where
  keys : ScalarKeys p.nodes
  turned : ∀ id text value, (p.nodes id).content = .scalar text → p.turned id = some value →
    (p.nodes id).tag ≠ VALUE ∧ value = keyScalar L p.nodes id
  inside : p.inside = within
  maps : ∀ id ∈ within, constructorFor (p.nodes id).tag = .map

variable {L} {within : List ι} {p : Progress ι κ} {id : ι}

theorem ne_value {c : Constructor} {tag : String} (h : constructorFor tag = c) (hc : c ≠ .undefined) :
    tag ≠ VALUE := by
  rintro rfl
  exact hc (h.symm.trans (by decide))

theorem Settled.enter (h : Settled L within p) (hid : constructorFor (p.nodes id).tag = .map) :
    Settled L (id :: within) (p.enter id) :=
  ⟨h.keys, h.turned, congrArg _ h.inside, List.forall_mem_cons.mpr ⟨hid, h.maps⟩⟩

theorem Settled.waits (h : Settled L within p) (ids : List ι) : Settled L within { p with waiting := ids } :=
  ⟨h.keys, h.turned, h.inside, h.maps⟩

variable [DecidableEq ι]

theorem respliced_spliced (p : Progress ι κ) (id : ι) : Respliced p.nodes (p.spliced L id).nodes := by
  rw [Progress.spliced]
  cases hflat : flattenMapping L.stack p.nodes id with
  | ok nodes => exact respliced_of_flattenMapping _ hflat
  | error e => exact .refl _

theorem Settled.spliced (h : Settled L within p) (id : ι) : Settled L within (p.spliced L id) := by
  have hnodes := respliced_spliced (L := L) p id
  have hinside := (Progress.inside_spliced L p id).trans h.inside
  refine ⟨hnodes.scalarKeys h.keys, fun other text value htext hvalue => ?_, hinside, fun other hother => ?_⟩
  · rw [hnodes.scalar] at htext
    rw [Progress.turned_spliced] at hvalue
    obtain ⟨htag, rfl⟩ := h.turned other text value htext hvalue
    have hnode := hnodes.eq_of_scalar htext htag
    exact ⟨(congrArg Node.tag hnode).trans_ne htag, (keyScalar_congr htext hnode).symm⟩
  · rw [hnodes.tag other (ne_value (h.maps other hother) nofun), h.maps other hother]

theorem Settled.leave (h : Settled L within p) {given : Option κ} (waits : Bool)
    (htag : (p.nodes id).tag ≠ VALUE) (hgiven : given = keyScalar L p.nodes id) :
    Settled L (within.erase id) (p.leave id given waits) := by
  refine ⟨h.keys, fun other text value htext hvalue => ?_, congrArg (·.erase id) h.inside,
    fun other hother => h.maps other (List.mem_of_mem_erase hother)⟩
  have hturned : (p.leave id given waits).turned = Function.update p.turned id (some given) := rfl
  rw [hturned] at hvalue
  by_cases hid : other = id
  · subst hid
    rw [Function.update_self] at hvalue
    cases hvalue
    exact ⟨htag, hgiven⟩
  · rw [Function.update_of_ne hid] at hvalue
    exact h.turned other text value htext hvalue

/-- A node that is left at once. -/
theorem Settled.turn (h : Settled L within p) (hid : id ∉ p.inside) {given : Option κ} (waits : Bool)
    (htag : (p.nodes id).tag ≠ VALUE) (hgiven : given = keyScalar L p.nodes id) :
    Settled L within ((p.enter id).leave id given waits) := by
  have hwithin : within.erase id = within := List.erase_of_not_mem (h.inside ▸ hid)
  rw [Progress.leave_enter hid, ← hwithin]
  exact h.leave waits htag hgiven

end

/-! ### What is met -/

section

variable {ι κ : Type} [DecidableEq ι] [DecidableEq κ] (L : Library κ)

namespace Stop

def Fine (s : Stop ι κ) : Prop := s.fault L = none

/-- A key is there again, and can be shown. -/
def Repeated (s : Stop ι κ) : Prop := ∃ k, s.fault L = some (.keyAgain k) ∧ ∃ shown, L.repr k = .ok shown

/-- A mapping has its turn whose keys have one again. -/
def Repeats : Stop ι κ → Prop
  | ⟨.mapping m, p⟩ => KeyAgain L (keyScalars L p.nodes m)
  | _ => False

end Stop

/-- A place that has nothing to do with a mapping's own keys. -/
def Place.Aside : Place ι κ → Prop
  | mapping _ | ownKey .. => False
  | _ => True

variable {L} {within : List ι} {p : Progress ι κ} {id : ι}

theorem Stop.not_repeated (m : ι) : ¬ (Stop.mk (.mapping m) p).Repeated L := by
  rintro ⟨k, hk, -⟩
  rw [fault] at hk
  grind

theorem Stop.not_of_aside {place : Place ι κ} (h : place.Aside) :
    ¬ ((Stop.mk place p).Repeated L ∨ (Stop.mk place p).Repeats L) := by
  cases place with
  | mapping | ownKey => exact h.elim
  | node | merges | pairs | key | items | entry =>
    refine not_or.mpr ⟨?_, fun h => h⟩
    rintro ⟨k, hk, -⟩
    rw [fault] at hk
    grind
  | deep =>
    refine not_or.mpr ⟨?_, fun h => h⟩
    rintro ⟨k, hk, -⟩
    cases hk

/-- What has pairs is a mapping. -/
theorem fine_of_keyAgain (h : KeyAgain L (keyScalars L p.nodes id)) : (Stop.mk (.mapping id) p).Fine L := by
  cases hcontent : (p.nodes id).content with
  | mapping => rw [Stop.Fine, Stop.fault, hcontent]
  | scalar | sequence =>
    rw [keyScalars, Nodes.pairs, hcontent] at h
    exact absurd h (not_keyAgain_nil .nil)

/-- From `p`, a key is there again on the way exactly if a mapping has its turn whose keys have one again. -/
abbrev Tells (L : Library κ) (within : List ι) (y : Route ι κ) (p : Progress ι κ) : Prop :=
  Agrees (Stop.Fine L) (Stop.Repeated L) (Stop.Repeats L) (Settled L within) y p

/-- From `p`, one meets neither. -/
abbrev Quiet (L : Library κ) (I : Progress ι κ → Prop) (y : Route ι κ) (p : Progress ι κ) : Prop :=
  Agrees (Stop.Fine L) (fun s => s.Repeated L ∨ s.Repeats L) (fun _ => False) I y p

/-- From `p`, a key is there again on the way exactly if `A`, and no mapping has its turn whose keys have
one again. -/
structure Checks (L : Library κ) (within : List ι) (A : Prop) (y : Route ι κ) (p : Progress ι κ) : Prop where
  repeated : Meets (Stop.Fine L) (Stop.Repeated L) (y p).2 ↔ A
  repeats : ¬ Meets (Stop.Fine L) (Stop.Repeats L) (y p).2
  leads : (∀ s ∈ (y p).2, s.Fine L) → Settled L within (y p).1

/-- A key has its turn and gives its scalar, unless something is wrong. -/
abbrev Gave (L : Library κ) (within : List ι) (key : ι) (p p' : Progress ι κ) : Prop :=
  Settled L within p' ∧ p'.nodes = p.nodes ∧ p'.scalar key = keyScalar L p.nodes key

/-- A scalar has its turn, in which it gives what it gives as a key. -/
structure GivesKey (L : Library κ) (within : List ι) (key : ι) (y : Route ι κ) (p : Progress ι κ) : Prop where
  quiet : Quiet L (Gave L within key p) y p
  fine : keyScalar L p.nodes key ≠ none → ∀ s ∈ (y p).2, s.Fine L

section

variable {place : Place ι κ} {y z : Route ι κ}

theorem tells_stop (hplace : place.Aside) (hy : (Stop.mk place p).Fine L → Tells L within y p) :
    Tells L within ((Route.stop place).andThen y) p :=
  have h := not_or.mp (Stop.not_of_aside hplace)
  .note_andThen (iff_of_false h.1 h.2) hy

theorem quiet_stop {I : Progress ι κ → Prop} (hplace : place.Aside)
    (hy : (Stop.mk place p).Fine L → Quiet L I y p) : Quiet L I ((Route.stop place).andThen y) p :=
  .note_andThen (iff_of_false (Stop.not_of_aside hplace) not_false) hy

theorem tells_splice (id : ι) (h : Settled L within p) : Tells L within (Route.splice L id) p :=
  tells_stop trivial fun _ => .move (h.spliced id)

variable {A : Prop} {m key : ι} {seen : List κ}

theorem Checks.along (h : y p = z p) (hz : Checks L within A z p) : Checks L within A y p := by
  obtain ⟨hrepeated, hrepeats, hleads⟩ := hz
  rw [← h] at hrepeated hrepeats hleads
  exact ⟨hrepeated, hrepeats, hleads⟩

theorem GivesKey.andThen (hy : GivesKey L within key y p) (hA : A → keyScalar L p.nodes key ≠ none)
    (hz : ∀ p', Gave L within key p p' → Checks L within A z p') : Checks L within A (y.andThen z) p := by
  have hno (B : Stop ι κ → Prop) (hB : ∀ s, B s → s.Repeated L ∨ s.Repeats L) :
      ¬ Meets (Stop.Fine L) B (y p).2 :=
    fun h => not_meets (fun _ => not_false) (hy.quiet.meets.mp (h.mono hB))
  have hrest (h : ∀ s ∈ (y p).2, s.Fine L) : Checks L within A z (y p).1 := hz _ (hy.quiet.leads h)
  constructor
  · rw [Tour.andThen, meets_append, or_iff_right (hno _ fun _ => .inl)]
    constructor
    · rintro ⟨h, hmeets⟩
      exact (hrest h).repeated.mp hmeets
    · intro h
      exact ⟨hy.fine (hA h), (hrest (hy.fine (hA h))).repeated.mpr h⟩
  · rw [Tour.andThen, meets_append, or_iff_right (hno _ fun _ => .inr)]
    rintro ⟨h, hmeets⟩
    exact (hrest h).repeats hmeets
  · intro hall
    obtain ⟨hvs, hws⟩ := List.forall_mem_append.mp hall
    exact (hrest hvs).leads hws

theorem Checks.stop {f : Fault κ} (hfault : (Stop.mk (.ownKey m seen key) p).fault L = some f)
    (hA : (Stop.mk (.ownKey m seen key) p).Repeated L ↔ A) :
    Checks L within A ((Route.stop (.ownKey m seen key)).andThen z) p := by
  have hbad : ¬ (Stop.mk (.ownKey m seen key) p).Fine L := fun h => nomatch h.symm.trans hfault
  constructor
  · exact (or_iff_left fun h => hbad h.1).trans hA
  · exact not_or.mpr ⟨not_false, fun h => hbad h.1⟩
  · exact fun h => absurd (h _ List.mem_cons_self) hbad

theorem Checks.pass (hfine : (Stop.mk (.ownKey m seen key) p).Fine L) (hz : Checks L within A z p) :
    Checks L within A ((Route.stop (.ownKey m seen key)).andThen z) p := by
  have hno : ¬ (Stop.mk (.ownKey m seen key) p).Repeated L := by
    rintro ⟨k, hk, -⟩
    exact nomatch hfine.symm.trans hk
  constructor
  · exact (or_iff_right hno).trans <| (and_iff_right hfine).trans hz.repeated
  · exact not_or.mpr ⟨not_false, fun h => hz.repeats h.2⟩
  · exact fun h => hz.leads fun s hs => h s (List.mem_cons_of_mem _ hs)

/-- One of a mapping's own keys, after those before it. -/
theorem checks_ownKey {before : List κ} {given : Option κ} {scalars : List (Option κ)} (hbefore : before.Nodup)
    (hgave : p.scalar key = given)
    (hz : ∀ k, given = some k → k ∉ before →
      Checks L within (KeyAgain L ((before ++ [k]).map some ++ scalars)) z p) :
    Checks L within (KeyAgain L (before.map some ++ given :: scalars))
      ((Route.stop (.ownKey m before.reverse key)).andThen z) p := by
  cases given with
  | none =>
    have hfault : (Stop.mk (.ownKey m before.reverse key) p).fault L = some .collectionKey := by
      rw [Stop.fault, hgave]
    refine .stop hfault (iff_of_false ?_ (not_keyAgain_none hbefore))
    rintro ⟨k, hk, -⟩
    cases hfault.symm.trans hk
  | some k =>
    by_cases hseen : k ∈ before
    · have hfault : (Stop.mk (.ownKey m before.reverse key) p).fault L = some (.keyAgain k) := by
        rw [Stop.fault, hgave]
        exact if_pos (List.mem_reverse.mpr hseen)
      refine .stop hfault (.trans ?_ (keyAgain_iff_of_mem hbefore hseen).symm)
      rw [Stop.Repeated, hfault]
      constructor
      · rintro ⟨_, hk, hshown⟩
        cases hk
        exact hshown
      · exact fun hshown => ⟨k, rfl, hshown⟩
    · have hfine : (Stop.mk (.ownKey m before.reverse key) p).Fine L := by
        rw [Stop.Fine, Stop.fault, hgave]
        exact if_neg fun h => hseen (List.mem_reverse.mp h)
      have hrest := hz k rfl hseen
      rw [List.map_append, List.append_assoc] at hrest
      exact .pass hfine hrest

end

/-! ### The way of a mapping -/

/-- What the turns of nodes are like. -/
structure NodeTurns (L : Library κ) (turn : ι → Route ι κ) : Prop where
  tells : ∀ within id p, Settled L within p → Tells L within (turn id) p
  gives : ∀ within key text p, Settled L within p → (p.nodes key).content = .scalar text →
    GivesKey L within key (turn key) p

section

variable {turn : ι → Route ι κ} (hturn : NodeTurns L turn)

include hturn

theorem checks_ownKeys (m : ι) (pairs : List (ι × ι)) : ∀ p (before : List κ), Settled L within p →
    (∀ pair ∈ pairs, (p.nodes pair.1).content.isScalar) → before.Nodup →
    Checks L within (KeyAgain L (before.map some ++ ownScalars L p.nodes pairs))
      (Route.ownKeys turn m before.reverse pairs) p := by
  induction pairs with
  | nil =>
    intro p before hp _ hbefore
    refine ⟨iff_of_false not_false ?_, not_false, fun _ => hp⟩
    simpa [ownScalars] using not_keyAgain_nil hbefore
  | cons pair pairs ih =>
    intro p before hp hscalars hbefore
    obtain ⟨hscalar, hscalars⟩ := List.forall_mem_cons.mp hscalars
    cases hmerge : p.nodes.isMerge pair with
    | true =>
      rw [ownScalars_of_merge hmerge]
      exact .along (Route.ownKeys_of_merge turn hmerge) (ih p before hp hscalars hbefore)
    | false =>
      rw [ownScalars_of_own hmerge]
      obtain ⟨text, htext⟩ := Content.isScalar_iff.mp hscalar
      refine .along (Route.ownKeys_of_own turn hmerge) <|
        (hturn.gives within pair.1 text p hp htext).andThen ?_ fun p' h => ?_
      · intro hagain hnone
        rw [hnone] at hagain
        exact not_keyAgain_none hbefore hagain
      obtain ⟨hp', hnodes, hgave⟩ := h
      refine checks_ownKey hbefore hgave fun k hk hseen => ?_
      have hbefore' : (before ++ [k]).Nodup := by
        rw [List.nodup_append_comm]
        exact List.nodup_cons.mpr ⟨hseen, hbefore⟩
      have hrest := ih p' (before ++ [k]) hp' (by rwa [hnodes]) hbefore'
      rw [List.reverse_append, hnodes] at hrest
      refine .along ?_ hrest
      rw [Tour.seeing, hgave, hk]
      rfl

theorem tells_entries (id : ι) (p) (hp : Settled L within p) :
    Tells L within (Route.entries L turn id) p := by
  refine tells_stop trivial fun _ => (tells_splice id hp).andThen fun p hp => .seeing ?_
  apply Agrees.each _ (p.nodes.pairs id) p hp
  intro pair p hp
  exact (hturn.tells within pair.1 p hp).andThen fun p hp =>
    tells_stop trivial fun _ => hturn.tells within pair.2 p hp

theorem tells_entry (id : ι) (p) (hp : Settled L within p) : Tells L within (Route.entry turn id) p := by
  refine tells_stop trivial fun _ => .seeing ?_
  split
  · exact (hturn.tells within _ p hp).andThen fun p hp => hturn.tells within _ p hp
  · exact .stay hp

theorem tells_items (id : ι) (p) (hp : Settled L within p) : Tells L within (Route.items L turn id) p := by
  refine tells_stop trivial fun _ => .seeing ?_
  split
  · exact tells_entries hturn id p hp
  · exact Agrees.each (fun id p hp => hturn.tells within id p hp) _ p hp
  · exact Agrees.each (fun id p hp => tells_entry hturn id p hp) _ p hp
  · exact .stay hp

theorem tells_waiting (n : Nat) : ∀ p, Settled L within p → Tells L within (Route.waiting L turn n) p := by
  induction n with
  | zero => exact fun _ => .stay
  | succ n ih =>
    refine fun p hp => .seeing ?_
    split
    · exact .stay hp
    · exact .move_andThen <| (tells_items hturn _ _ (hp.waits _)).andThen ih

theorem tells_mapping (id : ι) (p) (hp : Settled L within p) :
    Tells L within (Route.mapping L turn id) p := by
  rw [Route.mapping, ← Tour.andThen_assoc]
  refine Agrees.andThen (J := Settled L within) ?_ fun p hp =>
    (tells_splice id hp).andThen fun p hp => tells_entries hturn id p hp
  have hkeys := checks_ownKeys hturn id (p.nodes.pairs id) p [] hp (hp.keys id) .nil
  constructor
  · show (_ ∨ _ ∧ _) ↔ (_ ∨ _ ∧ _)
    rw [or_iff_right (Stop.not_repeated id), or_iff_left fun h => hkeys.repeats h.2]
    exact (and_congr_right fun _ => hkeys.repeated).trans (and_iff_right_of_imp fine_of_keyAgain)
  · exact fun hall => hkeys.leads fun s hs => hall s (List.mem_cons_of_mem _ hs)

omit hturn in
/-- A mapping's turn comes to an end on a text. -/
theorem quiet_mapping (id : ι) {text : String} (p : Progress ι κ)
    (hid : (p.nodes id).content = .scalar text) : Quiet L (fun _ => False) (Route.mapping L turn id) p := by
  have hpairs : p.nodes.pairs id = [] := by
    rw [Nodes.pairs, hid]
    rfl
  have hrepeats : ¬ (Stop.mk (.mapping id) p).Repeats L := by
    rw [Stop.Repeats, keyScalars, hpairs]
    exact not_keyAgain_nil .nil
  refine .note_andThen (iff_of_false (not_or.mpr ⟨Stop.not_repeated id, hrepeats⟩) not_false) fun _ => ?_
  have hspliced : ((p.spliced L id).nodes id).content = .scalar text :=
    ((respliced_spliced p id).scalar id text).mpr hid
  refine Agrees.andThen (J := (p = ·)) (.seeing ?_) fun _ h => ?_
  · rw [hpairs]
    exact .stay rfl
  subst h
  refine Agrees.andThen (J := (p.spliced L id = ·)) (quiet_stop trivial fun _ => .move rfl) fun _ h => ?_
  subst h
  refine quiet_stop trivial fun hfine => ?_
  rw [Stop.Fine, Stop.fault, hspliced] at hfine
  cases hfine

end

/-! ### The way of a document -/

/-- What the turns of mappings are like. -/
structure MappingTurns (L : Library κ) (m : ι → Route ι κ) : Prop where
  tells : ∀ within id p, Settled L within p → Tells L within (m id) p
  quiet : ∀ id text p, (p.nodes id).content = .scalar text → Quiet L (fun _ => False) (m id) p

section

variable {m : ι → Route ι κ} (hm : MappingTurns L m)

include hm

theorem tells_first (id : ι) (hp : Settled L within p) : Tells L within (Route.first L m id) p := by
  refine tells_stop trivial fun hfine => .seeing ?_
  have hid : id ∉ p.inside := fun hid => nomatch (if_pos hid).symm.trans hfine
  have hleave {given : Option κ} (waits : Bool) (htag : constructorFor (p.nodes id).tag ≠ .undefined)
      (hgiven : given = keyScalar L p.nodes id) :
      Tells L within ((Tour.move (·.enter id)).andThen (.move (·.leave id given waits))) p :=
    .move_andThen <| .move (hp.turn hid waits (ne_value rfl htag) hgiven)
  cases htag : constructorFor (p.nodes id).tag with
  | map =>
    refine .move_andThen <| (hm.tells _ id _ (hp.enter htag)).andThen fun p hp => .move ?_
    have htag := hp.maps id List.mem_cons_self
    have hleft : Settled L ((id :: within).erase id) (p.leave id none false) :=
      hp.leave false (ne_value htag nofun) (if_neg (by simp [htag])).symm
    rwa [List.erase_cons_head] at hleft
  | scalar => exact hleave false (by simp [htag]) (if_pos htag).symm
  | seq | set | pairs => exact hleave true (by simp [htag]) (if_neg (by simp [htag])).symm
  | undefined =>
    rw [Stop.Fine, Stop.fault, if_neg hid, htag] at hfine
    cases hfine

theorem quiet_first {key : ι} {text : String} (hp : Settled L within p)
    (hkey : (p.nodes key).content = .scalar text) :
    Quiet L (Gave L within key p) (Route.first L m key) p := by
  refine quiet_stop trivial fun hfine => .seeing ?_
  have hopen : key ∉ p.inside := fun hin => nomatch (if_pos hin).symm.trans hfine
  have hleave {given : Option κ} (waits : Bool) (htag : constructorFor (p.nodes key).tag ≠ .undefined)
      (hgiven : given = keyScalar L p.nodes key) :
      Quiet L (Gave L within key p)
        ((Tour.move (·.enter key)).andThen (.move (·.leave key given waits))) p := by
    refine .move_andThen <| .move ⟨hp.turn hopen waits (ne_value rfl htag) hgiven, rfl, ?_⟩
    simp [Progress.scalar, Progress.leave, hgiven]
  cases htag : constructorFor (p.nodes key).tag with
  | map => exact .move_andThen <| (hm.quiet key text (p.enter key) hkey).andThen fun _ h => h.elim
  | scalar => exact hleave false (by simp [htag]) (if_pos htag).symm
  | seq | set | pairs => exact hleave true (by simp [htag]) (if_neg (by simp [htag])).symm
  | undefined =>
    rw [Stop.Fine, Stop.fault, if_neg hopen, htag] at hfine
    cases hfine

omit hm in
theorem fine_first {key : ι} (hp : Settled L within p) (hkey : keyScalar L p.nodes key ≠ none) :
    ∀ s ∈ (Route.first L m key p).2, s.Fine L := by
  have htag : constructorFor (p.nodes key).tag = .scalar := by
    by_contra htag
    exact hkey (if_neg htag)
  have hopen : key ∉ p.inside := by
    intro hin
    rw [hp.inside] at hin
    exact nomatch htag.symm.trans (hp.maps key hin)
  intro s hs
  simp only [Route.first, Route.stop, Tour.note, Tour.andThen, Tour.seeing, Tour.move, htag, List.append_nil,
    List.mem_singleton] at hs
  subst hs
  rw [Stop.Fine, Stop.fault, if_neg hopen, htag]
  cases hscalar : constructScalar L p.nodes key with
  | ok k => rfl
  | error e =>
    have hnone : keyScalar L p.nodes key = none := by
      rw [keyScalar, if_pos htag, hscalar]
      rfl
    exact absurd hnone hkey

theorem nodeTurns_turnWith : NodeTurns L (Route.turnWith L m) where
  tells within id p hp := by
    refine .seeing ?_
    split
    · exact .stay hp
    · exact tells_first hm id hp
  gives within key text p hp hkey := by
    cases hturned : p.turned key with
    | none =>
      have hroute : Route.turnWith L m key p = Route.first L m key p := by
        rw [Route.turnWith, Tour.seeing, hturned]
        rfl
      refine ⟨.along hroute (quiet_first hm hp hkey), fun h => ?_⟩
      rw [hroute]
      exact fine_first hp h
    | some value =>
      have hroute : Route.turnWith L m key p = Tour.stay p := by
        rw [Route.turnWith, Tour.seeing, hturned]
        rfl
      obtain ⟨-, rfl⟩ := hp.turned key text value hkey hturned
      refine ⟨.along hroute (.stay ⟨hp, rfl, ?_⟩), fun _ => ?_⟩
      · rw [Progress.scalar, hturned]
        rfl
      · rw [hroute]
        exact fun s hs => absurd hs List.not_mem_nil

end

theorem nodeTurns_turn (stack : Nat) : NodeTurns L (Route.turn L stack : ι → Route ι κ) := by
  induction stack with
  | zero =>
    have hdeep (p : Progress ι κ) : ¬ (Stop.mk .deep p).Fine L := nofun
    refine nodeTurns_turnWith ⟨fun within id p _ => .note ?_ fun h => absurd h (hdeep p),
      fun id text p _ => .note ?_ (hdeep p)⟩
    · have h : ¬ ((Stop.mk .deep p).Repeated L ∨ (Stop.mk .deep p).Repeats L) := Stop.not_of_aside trivial
      exact iff_of_false (not_or.mp h).1 (not_or.mp h).2
    · exact iff_of_false (Stop.not_of_aside trivial) not_false
  | succ stack ih =>
    exact nodeTurns_turnWith
      ⟨fun within id p hp => tells_mapping ih id p hp, fun id text p hid => quiet_mapping id p hid⟩

theorem tells_document (n : Nat) (root : ι) (hp : Settled L within p) :
    Tells L within (Route.document L n root) p :=
  ((nodeTurns_turn L.stack).tells within root p hp).andThen fun p hp =>
    tells_waiting (nodeTurns_turn L.stack) n p hp

end

/-! ### What is first wrong -/

section

variable {κ : Type} [DecidableEq κ] (L : Library κ)

/-- A mapping has its turn with nothing wrong before, and the nodes stand so. -/
def HasTurn (d : Document) (m : Fin d.size) (nodes : Nodes (Fin d.size)) : Prop :=
  ∃ p, ComesTo L d ⟨.mapping m, p⟩ ∧ p.nodes = nodes

variable {L} {d : Document}

theorem exists_comesTo {A : Stop (Fin d.size) κ → Prop} :
    (∃ s, ComesTo L d s ∧ A s) ↔ Meets (Stop.Fine L) A (tour L d) := by
  rw [meets_iff]
  constructor
  · rintro ⟨s, ⟨before, after, htour, hbefore⟩, hs⟩
    exact ⟨before, s, after, htour, hbefore, hs⟩
  · rintro ⟨before, s, after, htour, hbefore, hs⟩
    exact ⟨s, ⟨before, after, htour, hbefore⟩, hs⟩

/-- **A key that is there again is first wrong exactly if a mapping has its turn whose keys have one
again**, where keys are scalars. -/
theorem firstFault_keyAgain_iff (hkeys : ScalarKeys d.nodes) :
    (∃ k, FirstFault L d (.keyAgain k) ∧ ∃ shown, L.repr k = .ok shown) ↔
      ∃ m nodes, HasTurn L d m nodes ∧ KeyAgain L (keyScalars L nodes m) := by
  have hstart : Settled L [] { nodes := d.nodes } := ⟨hkeys, nofun, rfl, nofun⟩
  have hmeets : (∃ s, ComesTo L d s ∧ s.Repeated L) ↔ ∃ s, ComesTo L d s ∧ s.Repeats L :=
    exists_comesTo.trans <| (tells_document d.size d.root hstart).meets.trans exists_comesTo.symm
  constructor
  · rintro ⟨k, ⟨s, hs, hk⟩, hshown⟩
    obtain ⟨⟨place, p⟩, hs, hrepeats⟩ := hmeets.mp ⟨s, hs, k, hk, hshown⟩
    cases place with
    | mapping m => exact ⟨m, p.nodes, ⟨p, hs, rfl⟩, hrepeats⟩
    | _ => exact hrepeats.elim
  · rintro ⟨m, _, ⟨p, hs, rfl⟩, hagain⟩
    obtain ⟨s, hs, k, hk, hshown⟩ := hmeets.mpr ⟨_, hs, hagain⟩
    exact ⟨k, ⟨s, hs, hk⟩, hshown⟩

end

end KeelsonDocker.PlatformRepo
