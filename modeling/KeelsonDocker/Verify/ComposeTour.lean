import KeelsonDocker.Compose
import KeelsonDocker.Theory.Tour

/-!
# What is wrong with a document, in the order of its construction

Each node of a document has one turn: a mapping is gone through at once, a sequence or a set later on,
and `<<` splices one mapping into another before the latter is gone through. `tour` goes through a
document in this order, whatever it comes by, and `Stop.fault` says of each place on the way, by the kind
of what stands there, whether anything is wrong with it. The strict loader raises the first fault of the
tour, and without one it returns (`load_eq_error`, `exists_load`).
-/

namespace KeelsonDocker.PlatformRepo

open Effect Yaml

/-! ### What can be wrong -/

inductive Fault (κ : Type)
  /-- An alias within the mapping that its anchor names. -/
  | recursiveNode
  | unknownTag (tag : String)
  /-- A scalar that is not converted. -/
  | scalar (e : LoadError)
  /-- A mapping nested beyond the stack. -/
  | tooDeep
  /-- A `!!map` tag on what has no pairs: a text, or a sequence of anything. -/
  | noPairs (e : PyError)
  /-- A mapping has a collection for one of its own keys. -/
  | collectionKey
  /-- A mapping has one of its own keys again. -/
  | keyAgain (k : κ)
  /-- What a merge key stands before cannot be spliced in. -/
  | merge (e : LoadError)
  | noMapping
  /-- A set, or what has been merged, has a collection for a key. -/
  | unhashableKey
  | noSequence
  | noEntry (problem : String)

/-- What is raised about it. -/
def Fault.error {κ : Type} (L : Library κ) : Fault κ → StrictError
  | .recursiveNode => .loader (.yaml "found unconstructable recursive node")
  | .unknownTag tag => .loader (.yaml ("could not determine a constructor for the tag " ++ pyRepr tag))
  | .scalar e | .merge e => .loader e
  | .tooDeep => .loader recursionError
  | .noPairs e => .loader (.raised (.py e))
  | .collectionKey => .loader (.raised (.py .typeError))
  | .keyAgain k =>
    match L.repr k with
    | .ok shown => .duplicateKey shown
    | .error e => .loader (.raised e)
  | .noMapping => .loader (.yaml "expected a mapping node")
  | .unhashableKey => .loader (.yaml "found unhashable key")
  | .noSequence => .loader (.yaml "expected a sequence node")
  | .noEntry problem => .loader (.yaml problem)

/-! ### Where it can be wrong -/

/-- How far one has come. -/
structure Progress (ι κ : Type) where
  /-- The nodes, with what has been spliced into them. -/
  nodes : Nodes ι
  /-- Which nodes have had their turn, and the scalars that they gave. -/
  turned : ι → Option (Option κ) := fun _ => none
  /-- The mappings that one is within. -/
  inside : List ι := []
  /-- The sequences and sets that are still to be gone through. -/
  waiting : List ι := []

/-- What is looked at. -/
inductive Place (ι κ : Type)
  /-- A node that has its turn. -/
  | node (id : ι)
  | deep
  | mapping (id : ι)
  /-- One of a mapping's own keys after its turn, with those before it. -/
  | ownKey (m : ι) (seen : List κ) (key : ι)
  | merges (id : ι)
  | pairs (id : ι)
  | key (id : ι)
  | items (id : ι)
  | entry (id : ι)

structure Stop (ι κ : Type) where
  place : Place ι κ
  progress : Progress ι κ

variable {ι κ : Type} [DecidableEq ι]

namespace Progress

/-- The scalar that a node has given. -/
def scalar (p : Progress ι κ) (id : ι) : Option κ := (p.turned id).join

def enter (p : Progress ι κ) (id : ι) : Progress ι κ := { p with inside := id :: p.inside }

def leave (p : Progress ι κ) (id : ι) (given : Option κ) (waits : Bool) : Progress ι κ :=
  { p with
    turned := Function.update p.turned id (some given)
    inside := p.inside.erase id
    waiting := if waits then p.waiting ++ [id] else p.waiting }

/-- What a mapping's merge keys stand before has been spliced into it. -/
def spliced (L : Library κ) (p : Progress ι κ) (id : ι) : Progress ι κ :=
  match flattenMapping L.stack p.nodes id with
  | .ok nodes => { p with nodes }
  | .error _ => p

@[simp] theorem turned_spliced (L : Library κ) (p : Progress ι κ) (id : ι) :
    (p.spliced L id).turned = p.turned := by
  rw [spliced]
  split <;> rfl

@[simp] theorem inside_spliced (L : Library κ) (p : Progress ι κ) (id : ι) :
    (p.spliced L id).inside = p.inside := by
  rw [spliced]
  split <;> rfl

theorem leave_enter {p : Progress ι κ} {id : ι} (h : id ∉ p.inside) (given : Option κ) (waits : Bool) :
    (p.enter id).leave id given waits = p.leave id given waits := by
  simp [enter, leave, List.erase_of_not_mem h]

end Progress

variable (L : Library κ)

/-- What is wrong with a place, if anything is. -/
def Stop.fault [DecidableEq κ] : Stop ι κ → Option (Fault κ)
  | ⟨.node id, p⟩ =>
    if id ∈ p.inside then some .recursiveNode
    else
      match constructorFor (p.nodes id).tag with
      | .scalar =>
        match constructScalar L p.nodes id with
        | .ok _ => none
        | .error e => some (.scalar e)
      | .undefined => some (.unknownTag (p.nodes id).tag)
      | .map | .seq | .set | .pairs => none
  | ⟨.deep, _⟩ => some .tooDeep
  | ⟨.mapping id, p⟩ =>
    match (p.nodes id).content with
    | .mapping _ => none
    | .sequence items => if items = [] then none else some (.noPairs .typeError)
    | .scalar text => if text = "" then none else some (.noPairs .valueError)
  | ⟨.ownKey _ seen key, p⟩ =>
    match p.scalar key with
    | none => some .collectionKey
    | some k => if k ∈ seen then some (.keyAgain k) else none
  | ⟨.merges id, p⟩ =>
    match flattenMapping L.stack p.nodes id with
    | .ok _ => none
    | .error e => some (.merge e)
  | ⟨.pairs id, p⟩ =>
    match (p.nodes id).content with
    | .mapping _ => none
    | .sequence _ | .scalar _ => some .noMapping
  | ⟨.key id, p⟩ =>
    match p.scalar id with
    | none => some .unhashableKey
    | some _ => none
  | ⟨.items id, p⟩ =>
    match constructorFor (p.nodes id).tag, (p.nodes id).content with
    | .set, _ | .seq, .sequence _ | .pairs, .sequence _ => none
    | _, _ => some .noSequence
  | ⟨.entry id, p⟩ =>
    match (p.nodes id).content with
    | .mapping [_] => none
    | .mapping _ => some (.noEntry "expected a single mapping item")
    | .sequence _ | .scalar _ => some (.noEntry "expected a mapping of length 1")

/-! ### The way through a document -/

abbrev Route (ι κ : Type) := Tour (Progress ι κ) (Stop ι κ)

namespace Route

def stop (place : Place ι κ) : Route ι κ := .note fun p => ⟨place, p⟩

section

variable (turn : ι → Route ι κ)

/-- The keys that a mapping has beside its merge keys. -/
def ownKeys (m : ι) : List κ → List (ι × ι) → Route ι κ
  | _, [] => .stay
  | seen, pair :: pairs => .seeing fun p =>
    if p.nodes.isMerge pair then ownKeys m seen pairs
    else
      (turn pair.1).andThen <| (stop (.ownKey m seen pair.1)).andThen <|
        .seeing fun p => ownKeys m ((p.scalar pair.1).toList ++ seen) pairs

omit [DecidableEq ι] in
theorem ownKeys_of_merge {m : ι} {seen : List κ} {pair : ι × ι} {pairs : List (ι × ι)} {p : Progress ι κ}
    (h : p.nodes.isMerge pair = true) :
    ownKeys turn m seen (pair :: pairs) p = ownKeys turn m seen pairs p := by
  rw [ownKeys, Tour.seeing, if_pos h]

omit [DecidableEq ι] in
theorem ownKeys_of_own {m : ι} {seen : List κ} {pair : ι × ι} {pairs : List (ι × ι)} {p : Progress ι κ}
    (h : p.nodes.isMerge pair = false) : ownKeys turn m seen (pair :: pairs) p =
      ((turn pair.1).andThen <| (stop (.ownKey m seen pair.1)).andThen <|
        .seeing fun p => ownKeys turn m ((p.scalar pair.1).toList ++ seen) pairs) p := by
  rw [ownKeys, Tour.seeing, if_neg (by simp [h])]

def splice (id : ι) : Route ι κ := (stop (.merges id)).andThen (.move (·.spliced L id))

def entries (id : ι) : Route ι κ :=
  (stop (.pairs id)).andThen <| (splice L id).andThen <| .seeing fun p =>
    .each (fun pair => (turn pair.1).andThen <| (stop (.key pair.1)).andThen (turn pair.2)) (p.nodes.pairs id)

def mapping (id : ι) : Route ι κ :=
  (stop (.mapping id)).andThen <|
    (Tour.seeing fun p => ownKeys turn id [] (p.nodes.pairs id)).andThen <|
      (splice L id).andThen (entries L turn id)

/-- An item of `!!omap` or `!!pairs`. -/
def entry (id : ι) : Route ι κ :=
  (stop (.entry id)).andThen <| .seeing fun p =>
    match (p.nodes id).content with
    | .mapping [(key, value)] => (turn key).andThen (turn value)
    | _ => .stay

def items (id : ι) : Route ι κ :=
  (stop (.items id)).andThen <| .seeing fun p =>
    match constructorFor (p.nodes id).tag, (p.nodes id).content with
    | .set, _ => entries L turn id
    | .seq, .sequence ids => .each turn ids
    | .pairs, .sequence ids => .each (entry turn) ids
    | _, _ => .stay

/-- What waits, in the order in which it came by. -/
def waiting : Nat → Route ι κ
  | 0 => .stay
  | n + 1 => .seeing fun p =>
    match p.waiting with
    | [] => .stay
    | id :: ids => (Tour.move ({ · with waiting := ids })).andThen <| (items L turn id).andThen (waiting n)

end

/-- A node's turn. -/
def first (mapping : ι → Route ι κ) (id : ι) : Route ι κ :=
  (stop (.node id)).andThen <| .seeing fun p =>
    (Tour.move (·.enter id)).andThen <|
      match constructorFor (p.nodes id).tag with
      | .map => (mapping id).andThen (.move (·.leave id none false))
      | .scalar => .move (·.leave id (constructScalar L p.nodes id).toOption false)
      | .seq | .set | .pairs => .move (·.leave id none true)
      | .undefined => .stay

/-- There is one. -/
def turnWith (mapping : ι → Route ι κ) (id : ι) : Route ι κ := .seeing fun p =>
  if (p.turned id).isSome then .stay else first L mapping id

def turn : Nat → ι → Route ι κ
  | 0 => turnWith L fun _ => stop .deep
  | stack + 1 => turnWith L (mapping L (turn stack))

/-- The way through a document of `n` nodes. -/
def document (n : Nat) (root : ι) : Route ι κ :=
  (turn L L.stack root).andThen (waiting L (turn L L.stack) n)

end Route

/-- The places of a document, in the order of construction. -/
def tour (d : Document) : List (Stop (Fin d.size) κ) :=
  (Route.document L d.size d.root { nodes := d.nodes }).2

/-! ### The strict loader keeps to the tour -/

/-- The scalar that a value is. -/
def given : Value ι κ → Option κ
  | .scalar k => some k
  | .list _ | .dict _ | .set _ => none

/-- How far a loader has come. -/
def progress (s : LoaderState ι κ Unit) : Progress ι κ where
  nodes := s.core.nodes
  turned id := (s.core.constructed id).map given
  inside := s.core.recursive
  waiting := s.core.pending

section

variable [DecidableEq κ]

def Stop.wrong (s : Stop ι κ) : Option StrictError := (s.fault L).map (Fault.error L)

/-- From `s`, the loader stops at the first fault of the way. -/
abbrev Tours (x : Construct ι κ Unit α) (y : Route ι κ) (Q : α → LoaderState ι κ Unit → Prop)
    (s : LoaderState ι κ Unit) : Prop :=
  KeepsTo progress (Stop.wrong L) x y Q s

/-- A node has been constructed. -/
def Given (id : ι) (value : Value ι κ) (s : LoaderState ι κ Unit) : Prop := s.core.constructed id = some value

variable {L} {s : LoaderState ι κ Unit} {id : ι} {α : Type} {value : Value ι κ}

omit [DecidableEq ι] [DecidableEq κ] in
theorem progress_scalar (h : Given id value s) : (progress s).scalar id = given value := by
  simp [Progress.scalar, progress, show s.core.constructed id = some value from h]

omit [DecidableEq κ] in
theorem progress_leave (s : LoaderState ι κ Unit) (id : ι) (value : Value ι κ) (waits : Bool) :
    progress { s with core := s.core.leave id value waits } = (progress s).leave id (given value) waits := by
  unfold progress Core.leave Progress.leave
  congr 1
  funext other
  by_cases h : other = id
  · subst h
    simp
  · simp [Function.update_of_ne h]

section

variable {place : Place ι κ} {x : Construct ι κ Unit α} {y : Route ι κ} {Q : α → LoaderState ι κ Unit → Prop}

theorem tours_pass (h : Stop.fault L ⟨place, progress s⟩ = none) (hx : Tours L x y Q s) :
    Tours L x ((Route.stop place).andThen y) Q s :=
  .pass (by simp [Stop.wrong, h]) hx

theorem tours_stop {f : Fault κ} {t : LoaderState ι κ Unit} (h : Stop.fault L ⟨place, progress s⟩ = some f)
    (hx : x s = .error (f.error L) t) : Tours L x ((Route.stop place).andThen y) Q s :=
  .stop (by simp [Stop.wrong, h]) hx

end

theorem tours_splice (id : ι) : Tours L (flatten L id) (Route.splice L id) (fun _ _ => True) s := by
  cases hflat : flattenMapping L.stack s.core.nodes id with
  | ok nodes =>
    have hrun : flatten L id s = .ok () { s with core := { s.core with nodes } } := by
      rw [flatten, run_fetch_bind, hflat]
      rfl
    refine tours_pass (by simp only [Stop.fault, progress, hflat]) (.move hrun ?_ trivial)
    simp only [Progress.spliced, progress, hflat]
  | error e =>
    have hrun : flatten L id s = .error (.loader e) s := by
      rw [flatten, run_fetch_bind, hflat]
      rfl
    exact tours_stop (f := .merge e) (by simp only [Stop.fault, progress, hflat]) hrun

section

variable {c : ι → Construct ι κ Unit (Value ι κ)} {turn : ι → Route ι κ}
  (hc : ∀ id s, Tours L (c id) (turn id) (Given id) s)

include hc

theorem tours_ownKeys (m : ι) (pairs : List (ι × ι)) : ∀ seen s,
    Tours L (checkKeys L c seen pairs) (Route.ownKeys turn m seen pairs) (fun _ _ => True) s := by
  induction pairs with
  | nil => exact fun _ _ => .pure trivial
  | cons pair pairs ih =>
    intro seen s
    show Tours L (if s.core.nodes.isMerge pair then _ else _) (if s.core.nodes.isMerge pair then _ else _) _ s
    refine .ite (fun _ => ih seen s) fun _ => (hc pair.1 s).bind fun value s hvalue => ?_
    have hgo : Tours L (checkKeys L c ((given value).toList ++ seen) pairs)
        (.seeing fun p => Route.ownKeys turn m ((p.scalar pair.1).toList ++ seen) pairs)
        (fun _ _ => True) s := by
      rw [← progress_scalar hvalue]
      exact ih _ s
    have hscalar : (progress s).scalar pair.1 = given value := progress_scalar hvalue
    cases value with
    | scalar k =>
      dsimp only
      by_cases hseen : k ∈ seen
      · rw [if_pos hseen]
        refine tours_stop (f := .keyAgain k) (t := s) ?_ ?_
        · simp only [Stop.fault, hscalar, given, if_pos hseen]
        · rw [Fault.error]
          cases L.repr k <;> rfl
      · rw [if_neg hseen]
        exact tours_pass (by simp only [Stop.fault, hscalar, given, if_neg hseen]) hgo
    | list | dict | set =>
      exact tours_stop (f := .collectionKey) (by simp only [Stop.fault, hscalar, given]) rfl

theorem tours_pairs (pairs : List (ι × ι)) : ∀ s, Tours L (constructPairs c pairs)
    (.each (fun pair => (turn pair.1).andThen <| (Route.stop (.key pair.1)).andThen (turn pair.2)) pairs)
    (fun _ _ => True) s := by
  induction pairs with
  | nil => exact fun _ => .pure trivial
  | cons pair pairs ih =>
    intro s
    rw [Tour.each, Tour.andThen_assoc, Tour.andThen_assoc]
    refine (hc pair.1 s).bind fun value s hvalue => ?_
    have hscalar : (progress s).scalar pair.1 = given value := progress_scalar hvalue
    cases value with
    | scalar k =>
      exact tours_pass (by simp only [Stop.fault, hscalar, given]) <| (hc pair.2 s).bind fun v s _ =>
        (ih s).then_silent fun vs s _ => ⟨_, s, rfl, rfl, trivial⟩
    | list | dict | set =>
      exact tours_stop (f := .unhashableKey) (by simp only [Stop.fault, hscalar, given]) rfl

theorem tours_entries (id : ι) (s) :
    Tours L (constructMapping L c id) (Route.entries L turn id) (fun value _ => value = .dict id) s := by
  have hrun : constructMapping L c id s = (fetch (·.nodes id) >>= fun node => _) s := rfl
  rw [run_fetch_bind] at hrun
  cases hcontent : (s.core.nodes id).content with
  | mapping pairs =>
    rw [hcontent] at hrun
    refine .congr hrun <| tours_pass (by simp only [Stop.fault, progress, hcontent]) ?_
    exact (tours_splice id).bind fun _ s _ =>
      (tours_pairs hc (s.core.nodes.pairs id) s).then_silent fun es s _ => ⟨_, _, rfl, rfl, rfl⟩
  | sequence | scalar =>
    rw [hcontent] at hrun
    exact .congr hrun <| tours_stop (f := .noMapping) (by simp only [Stop.fault, progress, hcontent]) rfl

theorem tours_checkNode (id : ι) (s) : Tours L (checkNode L c id)
    ((Route.stop (.mapping id)).andThen (.seeing fun p => Route.ownKeys turn id [] (p.nodes.pairs id)))
    (fun _ _ => True) s := by
  have hkeys : Tours L (checkKeys L c [] (s.core.nodes id).content.pairs)
      (.seeing fun p => Route.ownKeys turn id [] (p.nodes.pairs id)) (fun _ _ => True) s :=
    tours_ownKeys hc id _ [] s
  have hrun : checkNode L c id s = (fetch (·.nodes id) >>= fun node => _) s := rfl
  rw [run_fetch_bind] at hrun
  cases hcontent : (s.core.nodes id).content with
  | mapping pairs =>
    rw [hcontent] at hrun hkeys
    exact .congr hrun <| tours_pass (by simp only [Stop.fault, progress, hcontent]) hkeys
  | sequence items =>
    rw [hcontent] at hrun hkeys
    by_cases hitems : items = []
    · refine .congr (hrun.trans (congrFun (if_pos hitems) s)) <| tours_pass ?_ hkeys
      simp only [Stop.fault, progress, hcontent, if_pos hitems]
    · refine .congr (hrun.trans (congrFun (if_neg hitems) s)) <| tours_stop (f := .noPairs .typeError) ?_ rfl
      simp only [Stop.fault, progress, hcontent, if_neg hitems]
  | scalar text =>
    rw [hcontent] at hrun hkeys
    by_cases htext : text = ""
    · refine .congr (hrun.trans (congrFun (if_pos htext) s)) <| tours_pass ?_ hkeys
      simp only [Stop.fault, progress, hcontent, if_pos htext]
    · refine .congr (hrun.trans (congrFun (if_neg htext) s)) <| tours_stop (f := .noPairs .valueError) ?_ rfl
      simp only [Stop.fault, progress, hcontent, if_neg htext]

theorem tours_mapping (id : ι) (s) : Tours L (noDuplicateKeys L c id) (Route.mapping L turn id)
    (fun value _ => value = .dict id) s := by
  rw [Route.mapping, ← Tour.andThen_assoc]
  exact (tours_checkNode hc id s).bind fun _ s _ => (tours_splice id).bind fun _ s _ => tours_entries hc id s

theorem tours_entry (ids : List ι) : ∀ s, Tours L (constructEntries c ids) (.each (Route.entry turn) ids)
    (fun _ _ => True) s := by
  induction ids with
  | nil => exact fun _ => .pure trivial
  | cons id ids ih =>
    intro s
    have hrun : constructEntries c (id :: ids) s = (fetch (·.nodes id) >>= fun node => _) s := rfl
    rw [run_fetch_bind] at hrun
    rw [Tour.each, Route.entry, Tour.andThen_assoc]
    cases hcontent : (s.core.nodes id).content with
    | mapping pairs =>
      rw [hcontent] at hrun
      match pairs with
      | [(key, value)] =>
        refine .congr hrun <| tours_pass (by simp only [Stop.fault, progress, hcontent]) ?_
        have hnode : ((progress s).nodes id).content = .mapping [(key, value)] := hcontent
        have hgo : Tours L _ ((turn key).andThen <| (turn value).andThen <| .each (Route.entry turn) ids)
            (fun _ _ => True) s := (hc key s).bind fun _ s _ => (hc value s).bind fun _ s _ => ih s
        rw [← Tour.andThen_assoc] at hgo
        exact .along (by simp only [Tour.andThen, Tour.seeing, hnode]) hgo
      | [] =>
        refine .congr hrun <| tours_stop (f := .noEntry "expected a single mapping item") ?_ rfl
        simp only [Stop.fault, progress, hcontent]
      | _ :: _ :: _ =>
        refine .congr hrun <| tours_stop (f := .noEntry "expected a single mapping item") ?_ rfl
        simp only [Stop.fault, progress, hcontent]
    | sequence | scalar =>
      rw [hcontent] at hrun
      refine .congr hrun <| tours_stop (f := .noEntry "expected a mapping of length 1") ?_ rfl
      simp only [Stop.fault, progress, hcontent]

theorem tours_each (ids : List ι) : ∀ s, Tours L (ids.forM fun item => discard (c item)) (.each turn ids)
    (fun _ _ => True) s := by
  induction ids with
  | nil => exact fun _ => .pure trivial
  | cons id ids ih =>
    exact fun s => ((hc id s).then_silent (R := fun _ _ => True)
      fun _ s _ => ⟨⟨⟩, s, rfl, rfl, trivial⟩).bind fun _ s _ => ih s

theorem tours_items (id : ι) (s) :
    Tours L (runGenerator L c id) (Route.items L turn id) (fun _ _ => True) s := by
  have hrun : runGenerator L c id s = (fetch (·.nodes id) >>= fun node => _) s := rfl
  rw [run_fetch_bind] at hrun
  have hgo {x : Construct ι κ Unit Unit} {y : Route ι κ} (hx : runGenerator L c id s = x s)
      (hnone : Stop.fault L ⟨.items id, progress s⟩ = none)
      (hroute : Route.items L turn id (progress s) = ((Route.stop (.items id)).andThen y) (progress s))
      (hgo : Tours L x y (fun _ _ => True) s) :
      Tours L (runGenerator L c id) (Route.items L turn id) (fun _ _ => True) s :=
    .congr hx <| .along hroute <| tours_pass hnone hgo
  cases htag : constructorFor (s.core.nodes id).tag with
  | set =>
    rw [htag] at hrun
    refine hgo hrun ?_ ?_ ((tours_entries hc id s).then_silent fun _ s _ => ⟨⟨⟩, s, rfl, rfl, trivial⟩)
    · simp only [Stop.fault, progress, htag]
    · simp only [Route.items, Route.stop, Tour.note, Tour.andThen, Tour.seeing, progress, htag]
  | seq =>
    cases hcontent : (s.core.nodes id).content with
    | sequence ids =>
      rw [htag, hcontent] at hrun
      refine hgo hrun ?_ ?_ (tours_each hc ids s)
      · simp only [Stop.fault, progress, htag, hcontent]
      · simp only [Route.items, Route.stop, Tour.note, Tour.andThen, Tour.seeing, progress, htag, hcontent]
    | scalar | mapping =>
      rw [htag, hcontent] at hrun
      refine .congr hrun <| tours_stop (f := .noSequence) ?_ rfl
      simp only [Stop.fault, progress, htag, hcontent]
  | pairs =>
    cases hcontent : (s.core.nodes id).content with
    | sequence ids =>
      rw [htag, hcontent] at hrun
      refine hgo hrun ?_ ?_ (tours_entry hc ids s)
      · simp only [Stop.fault, progress, htag, hcontent]
      · simp only [Route.items, Route.stop, Tour.note, Tour.andThen, Tour.seeing, progress, htag, hcontent]
    | scalar | mapping =>
      rw [htag, hcontent] at hrun
      refine .congr hrun <| tours_stop (f := .noSequence) ?_ rfl
      simp only [Stop.fault, progress, htag, hcontent]
  | map | scalar | undefined =>
    rw [htag] at hrun
    refine .congr hrun <| tours_stop (f := .noSequence) ?_ rfl
    simp only [Stop.fault, progress, htag]

theorem tours_waiting (n : Nat) : ∀ s,
    Tours L (runGenerators L c n) (Route.waiting L turn n) (fun _ _ => True) s := by
  induction n with
  | zero => exact fun _ => .pure trivial
  | succ n ih =>
    intro s
    have hrun : runGenerators L c (n + 1) s = (fetch (·.pending) >>= fun pending => _) s := rfl
    rw [run_fetch_bind] at hrun
    cases hpending : s.core.pending with
    | nil =>
      rw [hpending] at hrun
      refine .congr hrun <| .along ?_ (.pure trivial)
      simp only [Route.waiting, Tour.seeing, progress, hpending]
    | cons id pending =>
      rw [hpending] at hrun
      have hroute : Route.waiting L turn (n + 1) (progress s) =
          ((Tour.move ({ · with waiting := pending })).andThen <|
            (Route.items L turn id).andThen (Route.waiting L turn n)) (progress s) := by
        simp only [Route.waiting, Tour.seeing, progress, hpending]
      refine .congr hrun <| .along hroute <| .move_bind rfl rfl ?_
      exact (tours_items hc id _).bind fun _ s _ => ih s

end

/-- What is left to do with a node that has been entered. -/
def leaving (id : ι) (made : Construct ι κ Unit (Value ι κ × Bool)) : Construct ι κ Unit (Value ι κ) := do
  let (value, generator) ← made
  change (·.leave id value generator)
  return value

theorem tours_leave (id : ι) (value : Value ι κ) (waits : Bool) (s) :
    Tours L (leaving id (pure (value, waits))) (.move (·.leave id (given value) waits)) (Given id) s :=
  .move rfl (progress_leave s id value waits) (by simp [Given, Core.leave])

/-- What is constructed for the first time is entered, and left with its value. -/
theorem tours_first {m : ι → Construct ι κ Unit (Value ι κ)} {route : ι → Route ι κ}
    (hm : ∀ id s, Tours L (m id) (route id) (fun value _ => given value = none) s) (id : ι) (s)
    (hopen : id ∉ s.core.recursive) :
    Tours L (change (·.enter id) >>= fun _ => fetch (·.nodes) >>= fun nodes =>
      leaving id (construction L m nodes id)) (Route.first L route id) (Given id) s := by
  have hgo {made : Construct ι κ Unit (Value ι κ × Bool)} {y : Route ι κ}
      (hmade : construction L m s.core.nodes id = made)
      (hfault : Stop.fault L ⟨.node id, progress s⟩ = none)
      (hroute : Route.first L route id (progress s) =
        ((Route.stop (.node id)).andThen <| (Tour.move (·.enter id)).andThen y) (progress s))
      (hy : Tours L (leaving id made) y (Given id) { s with core := s.core.enter id }) :
      Tours L (change (·.enter id) >>= fun _ => fetch (·.nodes) >>= fun nodes =>
        leaving id (construction L m nodes id)) (Route.first L route id) (Given id) s := by
    subst hmade
    exact .along hroute <| tours_pass hfault <| .move_bind rfl rfl hy
  have hbad {f : Fault κ} {e : LoadError} (hmade : construction L m s.core.nodes id = raise e)
      (hfault : Stop.fault L ⟨.node id, progress s⟩ = some f) (hf : f.error L = .loader e) :
      Tours L (change (·.enter id) >>= fun _ => fetch (·.nodes) >>= fun nodes =>
        leaving id (construction L m nodes id)) (Route.first L route id) (Given id) s := by
    refine tours_stop (t := { s with core := s.core.enter id }) hfault ?_
    show leaving id (construction L m s.core.nodes id) _ = _
    rw [hmade, hf]
    rfl
  cases htag : constructorFor (s.core.nodes id).tag with
  | map =>
    have hmapped (s) : Tours L (do return (← m id, false)) (route id)
        (fun made _ => given made.1 = none ∧ made.2 = false) s :=
      (hm id s).then_silent fun value s hvalue => ⟨(value, false), s, rfl, rfl, hvalue, rfl⟩
    refine hgo (y := (route id).andThen (.move (·.leave id none false))) ?_ ?_ ?_ <|
      (hmapped _).bind fun made s ⟨hnone, hwaits⟩ => ?_
    · simp only [construction, htag]
    · simp only [Stop.fault, progress, htag, if_neg hopen]
    · simp only [Route.first, Route.stop, Tour.note, Tour.andThen, Tour.seeing, progress, htag]
    · rw [← hnone, ← hwaits]
      exact tours_leave id made.1 made.2 s
  | seq | pairs =>
    refine hgo ?_ ?_ ?_ (tours_leave id (.list id) true _)
    · simp only [construction, htag]
    · simp only [Stop.fault, progress, htag, if_neg hopen]
    · simp only [Route.first, Route.stop, Tour.note, Tour.andThen, Tour.seeing, progress, htag, given]
  | set =>
    refine hgo ?_ ?_ ?_ (tours_leave id (.set id) true _)
    · simp only [construction, htag]
    · simp only [Stop.fault, progress, htag, if_neg hopen]
    · simp only [Route.first, Route.stop, Tour.note, Tour.andThen, Tour.seeing, progress, htag, given]
  | scalar =>
    cases hbuilt : constructScalar L s.core.nodes id with
    | ok k =>
      refine hgo ?_ ?_ ?_ (tours_leave id (.scalar k) false _)
      · simp only [construction, htag, hbuilt]
        rfl
      · simp only [Stop.fault, progress, htag, hbuilt, if_neg hopen]
      · simp only [Route.first, Route.stop, Tour.note, Tour.andThen, Tour.seeing, progress, htag, hbuilt,
          given]
        rfl
    | error e =>
      refine hbad (f := .scalar e) ?_ ?_ rfl
      · simp only [construction, htag, hbuilt]
        rfl
      · simp only [Stop.fault, progress, htag, hbuilt, if_neg hopen]
  | undefined =>
    refine hbad (f := .unknownTag (s.core.nodes id).tag) ?_ ?_ rfl
    · simp only [construction, htag]
    · simp only [Stop.fault, progress, htag, if_neg hopen]

/-- A node is constructed once, and given from then on. -/
theorem tours_turnWith {m : ι → Construct ι κ Unit (Value ι κ)} {route : ι → Route ι κ}
    (hm : ∀ id s, Tours L (m id) (route id) (fun value _ => given value = none) s) (id : ι) (s) :
    Tours L (constructWith L m id) (Route.turnWith L route id) (Given id) s := by
  have hturned : (progress s).turned id = (s.core.constructed id).map given := rfl
  have hrun : constructWith L m id s = (fetch (·.constructed id) >>= fun value => _) s := rfl
  rw [run_fetch_bind] at hrun
  cases hvalue : s.core.constructed id with
  | some value =>
    rw [hvalue] at hrun
    have hroute : Route.turnWith L route id (progress s) = Tour.stay (progress s) := by
      rw [Route.turnWith, Tour.seeing, if_pos (by simp [hturned, hvalue])]
    exact .congr hrun <| .along hroute (.pure hvalue)
  | none =>
    rw [hvalue] at hrun
    dsimp only at hrun
    rw [run_fetch_bind] at hrun
    have hroute : Route.turnWith L route id (progress s) = Route.first L route id (progress s) := by
      rw [Route.turnWith, Tour.seeing, if_neg (by simp [hturned, hvalue])]
    by_cases hopen : id ∈ s.core.recursive
    · rw [if_pos hopen] at hrun
      exact .congr hrun <| .along hroute <| tours_stop (f := .recursiveNode) (if_pos hopen) rfl
    · rw [if_neg hopen] at hrun
      exact .congr hrun <| .along hroute <| tours_first hm id s hopen

theorem tours_turn (stack : Nat) : ∀ (id : ι) (s),
    Tours L (constructObject L (noDuplicateKeys L) stack id) (Route.turn L stack id) (Given id) s := by
  induction stack with
  | zero => exact tours_turnWith fun id s => tours_stop (y := .stay) rfl rfl
  | succ stack ih => exact tours_turnWith fun id s => (tours_mapping ih id s).mono fun _ _ h => h ▸ rfl

theorem tours_document (n : Nat) (root : ι) : Tours L (constructDocument L (noDuplicateKeys L) n root)
    (Route.document L n root) (fun _ _ => True) s :=
  (tours_turn L.stack root s).bind fun value s _ =>
    (tours_waiting (tours_turn L.stack) n s).then_silent fun _ s _ => ⟨value, s, rfl, rfl, trivial⟩

end

/-! ### The strict load -/

section

variable [DecidableEq κ] (d : Document)

/-- Construction comes to a place if nothing is wrong before it. -/
def ComesTo (s : Stop (Fin d.size) κ) : Prop :=
  ∃ before after, tour L d = before ++ s :: after ∧ ∀ s' ∈ before, s'.fault L = none

/-- What is first wrong with a document. -/
def FirstFault (f : Fault κ) : Prop := ∃ s, ComesTo L d s ∧ s.fault L = some f

/-- Nothing is wrong with a document. -/
def Sound : Prop := ∀ s ∈ tour L d, s.fault L = none

variable {L d}

theorem firstFault_iff {f : Fault κ} : FirstFault L d f ↔ (tour L d).findSome? (Stop.fault L) = some f := by
  rw [List.findSome?_eq_some_iff]
  constructor
  · rintro ⟨s, ⟨before, after, htour, hbefore⟩, hs⟩
    exact ⟨before, s, after, htour, hs, hbefore⟩
  · rintro ⟨before, s, after, htour, hs, hbefore⟩
    exact ⟨s, ⟨before, after, htour, hbefore⟩, hs⟩

theorem sound_iff : Sound L d ↔ (tour L d).findSome? (Stop.fault L) = none :=
  List.findSome?_eq_none_iff.symm

theorem load_spec : match (tour L d).findSome? (Stop.fault L) with
    | some f => load L d = .error (f.error L)
    | none => ∃ loaded, load L d = .ok loaded := by
  have hgo := tours_document (L := L) (s := ⟨{ nodes := d.nodes }, ()⟩) d.size d.root
  have hwrong : (Route.document L d.size d.root { nodes := d.nodes }).2.findSome? (Stop.wrong L) =
      ((tour L d).findSome? (Stop.fault L)).map (Fault.error L) := by
    rw [List.map_findSome?]
    rfl
  cases hfirst : (tour L d).findSome? (Stop.fault L) with
  | some f =>
    obtain ⟨s, hs⟩ := hgo.raises (hwrong.trans (by rw [hfirst]; rfl))
    simp only [load, hs]
  | none =>
    obtain ⟨value, s, hs, -⟩ := hgo.returns (hwrong.trans (by rw [hfirst]; rfl))
    exact ⟨⟨d.size, value, s.core.dicts⟩, by simp only [load, hs]⟩

/-- **The strict loader raises what is first wrong with a document.** -/
theorem load_eq_error {e : StrictError} : load L d = .error e ↔ ∃ f, FirstFault L d f ∧ f.error L = e := by
  have h := load_spec (L := L) (d := d)
  simp only [firstFault_iff]
  cases hfirst : (tour L d).findSome? (Stop.fault L) with
  | some f =>
    rw [hfirst] at h
    simp [h]
  | none =>
    rw [hfirst] at h
    obtain ⟨loaded, hloaded⟩ := h
    simp [hloaded]

/-- A document with which nothing is wrong is loaded. -/
theorem exists_load : (∃ loaded, load L d = .ok loaded) ↔ Sound L d := by
  have h := load_spec (L := L) (d := d)
  rw [sound_iff]
  cases hfirst : (tour L d).findSome? (Stop.fault L) with
  | some f =>
    rw [hfirst] at h
    simp [h]
  | none =>
    rw [hfirst] at h
    exact iff_of_true h rfl

variable {text : String}

theorem parseCompose_eq (h : L.compose text = .ok (some d)) : parseCompose L text = (load L d).map some := by
  rw [parseCompose, h]
  rfl

theorem parseCompose_eq_error (h : L.compose text = .ok (some d)) {e : StrictError} :
    parseCompose L text = .error e ↔ ∃ f, FirstFault L d f ∧ f.error L = e := by
  rw [← load_eq_error, parseCompose_eq h]
  cases load L d <;> simp [Except.map]

end

end KeelsonDocker.PlatformRepo
