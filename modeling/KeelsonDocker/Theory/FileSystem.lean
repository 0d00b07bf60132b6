import KeelsonDocker.Theory.Effect
import Mathlib.Data.List.Dedup
import Mathlib.Logic.Function.Basic

/-!
# A tree of directories, files and symbolic links

A place is the list of names from the root down. What stands at a place is a directory, a regular file
or a symbolic link; a path given to the kernel is a list of parts, which may also be empty, `.` or `..`
and may lead through links. The operations are those of a POSIX kernel, each with the error it fails
with.
-/

namespace FileSystem

open Effect

abbrev Path := List String

inductive Errno
  | noent
  | notdir
  | isdir
  | exist
  | loop
  | acces
  | nameTooLong
  | inval
  | badf
  | noSpace
  | io
  deriving DecidableEq, Repr

/-- What stands at a place. A link holds its target split at the slashes, and whether it began with
one. -/
inductive Node (β : Type)
  | dir
  | file (mode : Nat) (content : β)
  | link (absolute : Bool) (target : List String)
  deriving DecidableEq, Repr

namespace Node

def isDir : Node β → Bool
  | dir => true
  | _ => false

def isFile : Node β → Bool
  | file .. => true
  | _ => false

def isLink : Node β → Bool
  | link .. => true
  | _ => false

end Node

/-- The parts that lead to where they are met, or one directory up. -/
def IsDots (name : String) : Prop := name = "" ∨ name = "." ∨ name = ".."

instance : DecidablePred IsDots := fun _ => inferInstanceAs (Decidable (_ ∨ _))

/-- What a directory entry may be called. -/
def IsName (name : String) : Prop :=
  ¬ IsDots name ∧ '/' ∉ name.toList ∧ Char.ofNat 0 ∉ name.toList

instance : DecidablePred IsName := fun _ => inferInstanceAs (Decidable (_ ∧ _))

/-- A file system. Looking an entry up, or reading what it holds, may be refused whatever stands
there, as with a missing permission or a name too long; a refusal never reads as an absence. -/
structure FileTree (β : Type) where
  node : Path → Option (Node β)
  refused : Path → Option Errno
  unreadable : Path → Option Errno
  /-- All places where something stands, and possibly others. -/
  places : List Path
  root : node [] = some .dir
  parent : ∀ p name, node (p ++ [name]) ≠ none → node p = some .dir
  names : ∀ p name, node (p ++ [name]) ≠ none → IsName name
  listed : ∀ p, node p ≠ none → p ∈ places
  refusal : ∀ p, refused p ≠ some .noent

variable {β : Type} {t : FileTree β} {p q k k' : Path} {name : String} {rest comps : List String}
  {n m : Nat} {nd : Node β} {a : Bool} {target : List String}

/-- Entries that make up a tree: below the root, named as entries may be, in directories. -/
def Proper (entries : List (Path × Node β)) : Prop :=
  ∀ e ∈ entries, (∃ name ∈ e.1.getLast?, IsName name) ∧
    (e.1.dropLast = [] ∨ (entries.lookup e.1.dropLast).any Node.isDir)

instance (entries : List (Path × Node β)) : Decidable (Proper entries) :=
  inferInstanceAs (Decidable (∀ _ ∈ _, _ ∧ _))

private theorem mem_of_lookup {entries : List (Path × Node β)} {p : Path} (h : entries.lookup p ≠ none) :
    ∃ nd, (p, nd) ∈ entries := by
  obtain ⟨nd, hnd⟩ := Option.ne_none_iff_exists'.mp h
  obtain ⟨l, l', rfl, _⟩ := List.lookup_eq_some_iff.mp hnd
  exact ⟨nd, by simp⟩

/-- Nothing is refused. -/
theorem none_ne_noent (p : Path) : (fun _ => none : Path → Option Errno) p ≠ some .noent := nofun

/-- The tree of a list of entries. -/
def FileTree.ofEntries (entries : List (Path × Node β)) (refused : Path → Option Errno)
    (h : Proper entries) (hrefused : ∀ p, refused p ≠ some .noent) : FileTree β where
  node p := if p = [] then some .dir else entries.lookup p
  refused := refused
  unreadable _ := none
  places := [] :: entries.map (·.1)
  root := if_pos rfl
  parent p name hne := by
    obtain ⟨nd, hmem⟩ := mem_of_lookup (by simpa using hne)
    rcases (h _ hmem).2 with hp | hp
    · rw [if_pos (by simpa using hp)]
    · split
      · rfl
      · rw [List.dropLast_concat] at hp
        cases hl : entries.lookup p with
        | none => simp [hl] at hp
        | some nd' => cases nd' <;> simp_all [Node.isDir]
  names p name hne := by
    obtain ⟨nd, hmem⟩ := mem_of_lookup (by simpa using hne)
    obtain ⟨name', hlast, hname⟩ := (h _ hmem).1
    simp only [List.getLast?_append, List.getLast?_singleton, Option.mem_def] at hlast
    cases hlast
    exact hname
  listed p hne := by
    by_cases hp : p = []
    · rw [hp]
      exact List.mem_cons_self
    · obtain ⟨nd, hmem⟩ := mem_of_lookup (by simpa [hp] using hne)
      exact List.mem_cons_of_mem _ (List.mem_map.mpr ⟨_, hmem, rfl⟩)
  refusal := hrefused

/-! ### Looking one name up -/

/-- Where a part leads that is no entry's name. -/
def hop (p : Path) (name : String) : Option Path :=
  if name = "" ∨ name = "." then some p else if name = ".." then some p.dropLast else none

theorem hop_eq_none : hop p name = none ↔ ¬ IsDots name := by
  unfold hop IsDots
  split <;> rename_i h
  · simp only [reduceCtorEq, false_iff, not_not]
    exact h.imp_right .inl
  · split <;> rename_i h'
    · simp [h']
    · simp only [true_iff]
      rintro (h'' | h'' | h'')
      · exact h (.inl h'')
      · exact h (.inr h'')
      · exact h' h''

namespace FileTree

/-- Looking up `name` from `p`, as far as it needs a directory there and may be refused. -/
def enter (t : FileTree β) (p : Path) (name : String) : Except Errno Unit :=
  match t.node p with
  | some .dir =>
    match t.refused (p ++ [name]) with
    | some e => .error e
    | none => .ok ()
  | _ => .error .notdir

/-- The entry `name` of the directory `p`. -/
def lookup (t : FileTree β) (p : Path) (name : String) : Except Errno (Node β) :=
  match t.enter p name with
  | .error e => .error e
  | .ok () =>
    match t.node (p ++ [name]) with
    | some nd => .ok nd
    | none => .error .noent

theorem enter_eq_ok :
    t.enter p name = .ok () ↔ t.node p = some .dir ∧ t.refused (p ++ [name]) = none := by
  unfold enter
  split <;> rename_i h
  · split <;> simp_all
  · simp only [reduceCtorEq, false_iff, not_and]
    exact fun hd => absurd hd h

theorem lookup_eq_ok :
    t.lookup p name = .ok nd ↔ t.refused (p ++ [name]) = none ∧ t.node (p ++ [name]) = some nd := by
  unfold lookup
  cases he : t.enter p name with
  | ok u =>
    obtain ⟨_, hr⟩ := enter_eq_ok.mp he
    cases hn : t.node (p ++ [name]) <;> simp [hr]
  | error e =>
    simp only [reduceCtorEq, false_iff, not_and]
    intro hr hn
    have hd := t.parent p name (by simp [hn])
    rw [enter_eq_ok.mpr ⟨hd, hr⟩] at he
    cases he

theorem lookup_eq_noent (h : t.lookup p name = .error .noent) : t.node (p ++ [name]) = none := by
  unfold lookup at h
  split at h
  · rename_i e he
    cases h
    unfold enter at he
    split at he
    · split at he
      · rename_i hr
        cases he
        exact absurd hr (t.refusal _)
      · cases he
    · cases he
  · split at h
    · cases h
    · assumption

theorem refused_of_noent (hdir : t.node p = some .dir) (h : t.lookup p name = .error .noent) :
    t.refused (p ++ [name]) = none := by
  cases hr : t.refused (p ++ [name]) with
  | none => rfl
  | some e =>
    have he : t.enter p name = .error e := by simp [enter, hdir, hr]
    rw [lookup, he] at h
    cases h
    exact absurd hr (t.refusal _)

theorem node_of_lookup (h : t.lookup p name = .ok nd) : t.node (p ++ [name]) = some nd :=
  (lookup_eq_ok.mp h).2

theorem enter_of_lookup (h : t.lookup p name = .ok nd) : t.enter p name = .ok () := by
  obtain ⟨hr, hn⟩ := lookup_eq_ok.mp h
  exact enter_eq_ok.mpr ⟨t.parent p name (by simp [hn]), hr⟩

theorem isName_of_lookup (h : t.lookup p name = .ok nd) : IsName name :=
  t.names p name (by simp [node_of_lookup h])

theorem hop_of_lookup (h : t.lookup p name = .ok nd) : hop p name = none :=
  hop_eq_none.mpr (isName_of_lookup h).1

end FileTree

/-! ### Following a path -/

/-- Where a link's target starts. -/
def base (absolute : Bool) (p : Path) : Path := if absolute then [] else p

namespace FileTree

/-- The place a path leads to from `p`; `follow` takes over at a link. -/
def walkWith (t : FileTree β) (follow : Path → List String → Except Errno Path) :
    Path → List String → Except Errno Path
  | p, [] => .ok p
  | p, name :: rest =>
    match hop p name with
    | some q =>
      match t.enter p name with
      | .error e => .error e
      | .ok () => walkWith t follow q rest
    | none =>
      match t.lookup p name with
      | .error e => .error e
      | .ok (.link absolute target) => follow (base absolute p) (target ++ rest)
      | .ok _ => walkWith t follow (p ++ [name]) rest

/-- The place a path leads to, by way of `limit` links at most. -/
def walkUpTo (t : FileTree β) : (limit : Nat) → Path → List String → Except Errno Path
  | 0 => t.walkWith fun _ _ => .error .loop
  | limit + 1 => t.walkWith (t.walkUpTo limit)

/-- As many links as the kernel follows in one path. -/
def maxSymlinks : Nat := 40

def walk (t : FileTree β) (path : List String) : Except Errno Path := t.walkUpTo maxSymlinks [] path

/-- `lstat(2)` of `dir/name`. -/
def lstat (t : FileTree β) (dir : List String) (name : String) : Except Errno (Node β) :=
  match t.walk dir with
  | .error e => .error e
  | .ok d => t.lookup d name

/-- `stat(2)`. -/
def stat (t : FileTree β) (path : List String) : Except Errno (Node β) :=
  match t.walk path with
  | .error e => .error e
  | .ok d =>
    match t.node d with
    | some nd => .ok nd
    | none => .error .noent

/-- The bytes that opening a path for reading and reading it to the end give. -/
def read (t : FileTree β) (path : List String) : Except Errno β :=
  match t.walk path with
  | .error e => .error e
  | .ok d =>
    match t.node d with
    | some (.file _ content) =>
      match t.unreadable d with
      | some e => .error e
      | none => .ok content
    | some .dir => .error .isdir
    | some (.link ..) => .error .loop
    | none => .error .noent

/-- The entries of a directory, in no particular order. -/
def entries (t : FileTree β) (d : Path) : List String :=
  t.places.dedup.filterMap fun p =>
    match p.getLast? with
    | some name => if p.dropLast = d ∧ (t.node p).isSome then some name else none
    | none => none

/-- The names that listing a directory gives. -/
def readdir (t : FileTree β) (path : List String) : Except Errno (List String) :=
  match t.walk path with
  | .error e => .error e
  | .ok d =>
    match t.node d with
    | some .dir =>
      match t.unreadable d with
      | some e => .error e
      | none => .ok (t.entries d)
    | some _ => .error .notdir
    | none => .error .noent

end FileTree

/-! ### Changing the tree -/

namespace FileTree

/-- The tree with a regular file at the entry `name` of `p`, which whoever made it can read. -/
def put (t : FileTree β) (p : Path) (name : String) (mode : Nat) (content : β)
    (hdir : t.node p = some .dir) (hname : IsName name) (hentry : t.node (p ++ [name]) ≠ some .dir) :
    FileTree β where
  node := Function.update t.node (p ++ [name]) (some (.file mode content))
  refused := t.refused
  unreadable := Function.update t.unreadable (p ++ [name]) none
  places := (p ++ [name]) :: t.places
  root := by
    rw [Function.update_of_ne (by simp)]
    exact t.root
  parent q entry h := by
    have hq : t.node q = some .dir := by
      by_cases heq : q ++ [entry] = p ++ [name]
      · rw [(List.append_inj' heq rfl).1]
        exact hdir
      · rw [Function.update_of_ne heq] at h
        exact t.parent q entry h
    rw [Function.update_of_ne]
    · exact hq
    · rintro rfl
      exact hentry hq
  names q entry h := by
    by_cases heq : q ++ [entry] = p ++ [name]
    · obtain ⟨_, hn⟩ := List.append_inj' heq rfl
      cases hn
      exact hname
    · rw [Function.update_of_ne heq] at h
      exact t.names q entry h
  listed q h := by
    by_cases heq : q = p ++ [name]
    · rw [heq]
      exact List.mem_cons_self
    · rw [Function.update_of_ne heq] at h
      exact List.mem_cons_of_mem _ (t.listed q h)
  refusal := t.refusal

/-- The tree without the entry at `q`, which is no directory. -/
def erase (t : FileTree β) (q : Path) (hentry : t.node q ≠ some .dir) : FileTree β where
  node := Function.update t.node q none
  refused := t.refused
  unreadable := t.unreadable
  places := t.places
  root := by
    rw [Function.update_of_ne]
    · exact t.root
    · rintro rfl
      exact hentry t.root
  parent p entry h := by
    have hne : p ++ [entry] ≠ q := by
      rintro rfl
      exact h (Function.update_self ..)
    rw [Function.update_of_ne hne] at h
    have hp := t.parent p entry h
    rw [Function.update_of_ne]
    · exact hp
    · rintro rfl
      exact hentry hp
  names p entry h := by
    refine t.names p entry fun hnone => h ?_
    by_cases heq : p ++ [entry] = q
    · rw [heq, Function.update_self]
    · rw [Function.update_of_ne heq, hnone]
  listed p h := by
    refine t.listed p fun hnone => h ?_
    by_cases heq : p = q
    · rw [heq, Function.update_self]
    · rw [Function.update_of_ne heq, hnone]
  refusal := t.refusal

@[simp] theorem put_node (hdir hname hentry) (mode : Nat) (content : β) :
    (t.put p name mode content hdir hname hentry).node =
      Function.update t.node (p ++ [name]) (some (.file mode content)) := rfl

@[simp] theorem erase_node (hentry) :
    (t.erase p hentry).node = Function.update t.node p none := rfl

/-- Changes the regular file at a place, as through a descriptor open on it. -/
def revise (t : FileTree β) (place : Path) (f : Nat → β → Nat × β) : FileTree β where
  node q :=
    match t.node q with
    | some (.file mode content) =>
      if q = place then some (.file (f mode content).1 (f mode content).2)
      else some (.file mode content)
    | other => other
  refused := t.refused
  unreadable := t.unreadable
  places := t.places
  root := by simp [t.root]
  parent p entry h := by
    have hp := t.parent p entry (by rintro hnone; simp [hnone] at h)
    simp [hp]
  names p entry h := t.names p entry (by rintro hnone; simp [hnone] at h)
  listed p h := t.listed p (by rintro hnone; simp [hnone] at h)
  refusal := t.refusal

theorem revise_node {mode : Nat} {content : β} (f : Nat → β → Nat × β)
    (h : t.node p = some (.file mode content)) :
    (t.revise p f).node =
      Function.update t.node p (some (.file (f mode content).1 (f mode content).2)) := by
  funext q
  by_cases hq : q = p
  · subst hq
    simp [revise, h]
  · rw [Function.update_of_ne hq]
    cases hn : t.node q with
    | none => simp [revise, hn]
    | some nd => cases nd <;> simp [revise, hn, hq]

/-- `write(2)` of the whole content. -/
def write (t : FileTree β) (place : Path) (content : β) : FileTree β :=
  t.revise place fun mode _ => (mode, content)

def dirAt (t : FileTree β) (p : Path) : Bool :=
  match t.node p with
  | some .dir => true
  | _ => false

@[simp] theorem dirAt_iff : t.dirAt p = true ↔ t.node p = some .dir := by
  unfold dirAt
  split <;> simp_all

/-- `put` where the conditions hold. -/
def store (t : FileTree β) (p : Path) (name : String) (mode : Nat) (content : β) :
    Except Errno (FileTree β) :=
  if h : t.dirAt p = true ∧ IsName name ∧ ¬ t.dirAt (p ++ [name]) = true then
    .ok (t.put p name mode content (dirAt_iff.mp h.1) h.2.1 (fun hd => h.2.2 (dirAt_iff.mpr hd)))
  else .error .inval

/-- `erase` where the condition holds. -/
def drop (t : FileTree β) (p : Path) : Except Errno (FileTree β) :=
  if h : t.dirAt p = true then .error .isdir
  else .ok (t.erase p fun hd => h (dirAt_iff.mpr hd))

/-- Whether an entry may be replaced by a file: there is one that is no directory, or there is none. -/
def replaceable (t : FileTree β) (d : Path) (name : String) : Except Errno Unit :=
  match t.lookup d name with
  | .ok .dir => .error .isdir
  | .ok _ => .ok ()
  | .error .noent => .ok ()
  | .error e => .error e

/-- `open(2)` with `O_CREAT | O_EXCL`: the tree with the new file, and its place. -/
def create (t : FileTree β) (dir : List String) (name : String) (mode : Nat) (content : β) :
    Except Errno (Path × FileTree β) := do
  let d ← t.walk dir
  match t.lookup d name with
  | .ok _ => .error .exist
  | .error .noent => return (d ++ [name], ← t.store d name mode content)
  | .error e => .error e

/-- `chmod(2)`. -/
def chmod (t : FileTree β) (path : List String) (mode : Nat) : Except Errno (FileTree β) := do
  let d ← t.walk path
  return t.revise d fun _ content => (mode, content)

/-- `rename(2)` of a regular file. -/
def rename (t : FileTree β) (srcDir : List String) (src : String) (dstDir : List String) (dst : String) :
    Except Errno (FileTree β) := do
  let d ← t.walk srcDir
  let d' ← t.walk dstDir
  match ← t.lookup d src with
  | .file mode content =>
    t.replaceable d' dst
    if d ++ [src] = d' ++ [dst] then return t
    (← t.store d' dst mode content).drop (d ++ [src])
  | _ => .error .inval

/-- `unlink(2)`. -/
def unlink (t : FileTree β) (dir : List String) (name : String) : Except Errno (FileTree β) := do
  let d ← t.walk dir
  let _ ← t.lookup d name
  t.drop (d ++ [name])

/-! ### What an operation changes -/

/-- The same tree but for what stands at `p`. -/
structure Sets (t t' : FileTree β) (p : Path) (nd : Option (Node β)) : Prop where
  node : t'.node = Function.update t.node p nd
  refused : t'.refused = t.refused
  unreadable : ∀ q, q ≠ p → t.node q ≠ none → t'.unreadable q = t.unreadable q

/-- The same things stand at the same places. -/
structure Same (t t' : FileTree β) : Prop where
  node : t'.node = t.node
  refused : t'.refused = t.refused
  unreadable : ∀ q, t.node q ≠ none → t'.unreadable q = t.unreadable q

theorem Same.refl (t : FileTree β) : Same t t := ⟨rfl, rfl, fun _ _ => rfl⟩

variable {s t' : FileTree β} {nd' : Option (Node β)} {mode : Nat} {content : β} {dir : List String}

theorem Sets.node_self {o : Option (Node β)} (h : Sets t t' p o) : t'.node p = o := by
  rw [h.node, Function.update_self]

theorem Sets.node_of_ne {o : Option (Node β)} (h : Sets t t' p o) (hq : q ≠ p) : t'.node q = t.node q := by
  rw [h.node, Function.update_of_ne hq]

theorem Sets.trans {o : Option (Node β)} (h : Sets t s p o) (h' : Sets s t' p nd') : Sets t t' p nd' where
  node := by rw [h'.node, h.node, Function.update_idem]
  refused := h'.refused.trans h.refused
  unreadable q hq hnode := by
    rw [h'.unreadable q hq (by rwa [h.node_of_ne hq]), h.unreadable q hq hnode]

/-- An entry made and removed again leaves the tree as it was. -/
theorem Sets.cancel (hfresh : t.node p = none) (h : Sets t t' p none) : Same t t' where
  node := by rw [h.node, ← hfresh, Function.update_eq_self]
  refused := h.refused
  unreadable q hnode := by
    refine h.unreadable q ?_ hnode
    rintro rfl
    exact hnode hfresh

/-- Something made at `p`, put at `q` instead and removed at `p`. -/
theorem Sets.move {o o' : Option (Node β)} (hfresh : t.node p = none) (hne : q ≠ p) (h : Sets t s p o)
    (hput : Sets s t' q o') {u : FileTree β} (hgone : Sets t' u p none) : Sets t u q o' where
  node := by
    funext r
    by_cases hp : r = p
    · rw [hp, hgone.node_self, Function.update_of_ne hne.symm, hfresh]
    · rw [hgone.node_of_ne hp]
      by_cases hq : r = q
      · rw [hq, hput.node_self, Function.update_self]
      · rw [hput.node_of_ne hq, h.node_of_ne hp, Function.update_of_ne hq]
  refused := by rw [hgone.refused, hput.refused, h.refused]
  unreadable r hq hnode := by
    have hp : r ≠ p := by
      rintro rfl
      exact hnode hfresh
    have hs : s.node r ≠ none := by rwa [h.node_of_ne hp]
    have ht' : t'.node r ≠ none := by rwa [hput.node_of_ne hq]
    rw [hgone.unreadable r hp ht', hput.unreadable r hq hs, h.unreadable r hp hnode]

theorem sets_of_store (h : t.store p name mode content = .ok t') :
    t.node p = some .dir ∧ IsName name ∧ Sets t t' (p ++ [name]) (some (.file mode content)) ∧
      t'.unreadable (p ++ [name]) = none := by
  unfold store at h
  split at h
  · rename_i hp
    cases h
    exact ⟨dirAt_iff.mp hp.1, hp.2.1,
      ⟨rfl, rfl, fun q hq _ => Function.update_of_ne hq ..⟩, Function.update_self ..⟩
  · cases h

theorem sets_of_drop (h : t.drop p = .ok t') : Sets t t' p none := by
  unfold drop at h
  split at h
  · cases h
  · cases h
    exact ⟨rfl, rfl, fun _ _ _ => rfl⟩

theorem drop_eq_ok (h : t.node p = some (.file mode content)) : ∃ t', t.drop p = .ok t' := by
  unfold drop
  rw [dif_neg (by simp [h])]
  exact ⟨_, rfl⟩

theorem sets_revise (f : Nat → β → Nat × β) (h : t.node p = some (.file mode content)) :
    Sets t (t.revise p f) p (some (.file (f mode content).1 (f mode content).2)) :=
  ⟨revise_node f h, rfl, fun _ _ _ => rfl⟩

theorem sets_of_create (h : t.create dir name mode content = .ok (p, t')) :
    ∃ d, t.walk dir = .ok d ∧ t.node d = some .dir ∧ p = d ++ [name] ∧ t.node p = none ∧
      t.refused p = none ∧ Sets t t' p (some (.file mode content)) := by
  obtain ⟨d, hd, h⟩ := bind_eq_ok.mp h
  cases hl : t.lookup d name with
  | ok nd => simp [hl] at h
  | error e =>
    cases e <;> simp only [hl, reduceCtorEq] at h
    obtain ⟨t'', hs, h⟩ := bind_eq_ok.mp h
    cases h
    obtain ⟨hdir, _, hsets, _⟩ := sets_of_store hs
    exact ⟨d, hd, hdir, rfl, lookup_eq_noent hl, refused_of_noent hdir hl, hsets⟩

theorem unlink_eq_ok (hd : t.walk dir = .ok p) (hl : t.lookup p name = .ok (.file mode content)) :
    ∃ t', t.unlink dir name = .ok t' ∧ Sets t t' (p ++ [name]) none := by
  obtain ⟨t', ht'⟩ := drop_eq_ok (node_of_lookup hl)
  refine ⟨t', bind_eq_ok.mpr ⟨p, hd, bind_eq_ok.mpr ⟨_, hl, ht'⟩⟩, sets_of_drop ht'⟩

/-- A file renamed stands at the other place, and nothing where it stood. -/
theorem sets_of_rename {srcDir dstDir : List String} {src dst : String}
    (h : t.rename srcDir src dstDir dst = .ok t') (hsrc : t.walk srcDir = .ok p)
    (hdst : t.walk dstDir = .ok q) (hl : t.lookup p src = .ok (.file mode content))
    (hne : p ++ [src] ≠ q ++ [dst]) :
    ∃ s, t.replaceable q dst = .ok () ∧ Sets t s (q ++ [dst]) (some (.file mode content)) ∧
      s.unreadable (q ++ [dst]) = none ∧ Sets s t' (p ++ [src]) none := by
  obtain ⟨_, hp, h⟩ := bind_eq_ok.mp h
  cases hsrc.symm.trans hp
  obtain ⟨_, hq, h⟩ := bind_eq_ok.mp h
  cases hdst.symm.trans hq
  obtain ⟨_, hfile, h⟩ := bind_eq_ok.mp h
  cases hl.symm.trans hfile
  obtain ⟨_, hrep, h⟩ := bind_eq_ok.mp h
  rw [if_neg hne] at h
  obtain ⟨s, hs, h⟩ := bind_eq_ok.mp h
  obtain ⟨_, _, hsets, hread⟩ := sets_of_store hs
  exact ⟨s, hrep, hsets, hread, sets_of_drop h⟩

theorem replaceable_eq_ok (h : t.replaceable p name = .ok ()) (hdir : t.node p = some .dir) :
    t.refused (p ++ [name]) = none ∧ t.node (p ++ [name]) ≠ some .dir := by
  unfold replaceable at h
  split at h
  · cases h
  · rename_i nd hnot hl
    obtain ⟨hr, hn⟩ := lookup_eq_ok.mp hl
    refine ⟨hr, ?_⟩
    rw [hn]
    rintro ⟨⟩
    exact hnot rfl
  · rename_i hl
    exact ⟨refused_of_noent hdir hl, by simp [lookup_eq_noent hl]⟩
  · cases h

end FileTree

end FileSystem
