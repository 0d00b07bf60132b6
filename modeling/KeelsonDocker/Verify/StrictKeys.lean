import KeelsonDocker.Verify.ComposeKeys
import Mathlib.Data.List.ReduceOption

/-!
# Which duplicate keys are reported

A mapping is written with a key twice if two of its own keys give one value. The loader looks at the
mappings that have a turn, as they then stand: one that only `<<` refers to is spliced in and has none,
and one that was merged into another before its turn has what it inherits beside its own keys. Where keys
are scalars, `parseCompose` reports a duplicate exactly if one is written when a mapping that is written so
has its turn in time, or no key is written twice and no mapping has inherited one beside its own by its
turn (`reports_iff_writtenTwice_iff`).
-/

namespace KeelsonDocker.PlatformRepo

open Yaml

variable {κ : Type} [DecidableEq κ] (L : Library κ)

/-- Two keys of a mapping as written give one value. -/
def WrittenTwice (d : Document) (m : Fin d.size) : Prop :=
  ¬ (keyScalars L d.nodes.asKeys m).reduceOption.Nodup

instance (d : Document) (m : Fin d.size) : Decidable (WrittenTwice L d m) :=
  inferInstanceAs (Decidable (¬ _))

/-- A text is refused because of a duplicate key. -/
def Reports (text : String) : Prop := ∃ shown, parseCompose L text = .error (.duplicateKey shown)

instance (text : String) : Decidable (Reports L text) :=
  match h : parseCompose L text with
  | .error (.duplicateKey shown) => .isTrue ⟨shown, h⟩
  | .error (.loader _) => .isFalse fun ⟨_, h'⟩ => nomatch h.symm.trans h'
  | .ok _ => .isFalse fun ⟨_, h'⟩ => nomatch h.symm.trans h'

/-- A mapping that is written with a key twice has its turn in time: with nothing wrong before, neither
elsewhere nor with its keys, and as it is written. -/
def InTime (d : Document) (m : Fin d.size) : Prop :=
  KeyAgain L (keyScalars L d.nodes m) ∧
    ∃ nodes, HasTurn L d m nodes ∧ keyScalars L nodes m = keyScalars L d.nodes m

/-- A mapping that has been merged into another one has its turn, with nothing wrong before: it stands
otherwise than it is written, and of its keys one is there again. -/
def Inherited (d : Document) (m : Fin d.size) : Prop :=
  ∃ nodes, HasTurn L d m nodes ∧ keyScalars L nodes m ≠ keyScalars L d.nodes m ∧
    KeyAgain L (keyScalars L nodes m)

/-- What is written is what is seen. -/
inductive SeenAsWritten (d : Document) : Prop
  | inTime {m : Fin d.size} (h : InTime L d m)
  | neither (h : ∀ m, ¬ WrittenTwice L d m) (h' : ∀ m, ¬ Inherited L d m)
  /-- A key is written twice all the same. -/
  | both {m m' : Fin d.size} (h : WrittenTwice L d m) (h' : Inherited L d m')

section

variable {L} {d : Document} {text : String}

omit [DecidableEq κ] in
theorem error_eq_duplicateKey {f : Fault κ} {shown : String} :
    f.error L = .duplicateKey shown ↔ ∃ k, f = .keyAgain k ∧ L.repr k = .ok shown := by
  cases f with
  | keyAgain k =>
    cases hrepr : L.repr k with
    | ok shown' => simp [Fault.error, hrepr]
    | error e => simp [Fault.error, hrepr]
  | _ => simp [Fault.error]

theorem reports_iff_firstFault (h : L.compose text = .ok (some d)) :
    Reports L text ↔ ∃ k, FirstFault L d (.keyAgain k) ∧ ∃ shown, L.repr k = .ok shown := by
  simp only [Reports, parseCompose_eq_error h, error_eq_duplicateKey]
  constructor
  · rintro ⟨shown, _, hf, k, rfl, hshown⟩
    exact ⟨k, hf, shown, hshown⟩
  · rintro ⟨k, hf, shown, hshown⟩
    exact ⟨shown, _, hf, k, rfl, hshown⟩

theorem reports_iff (h : L.compose text = .ok (some d)) (hkeys : ScalarKeys d.nodes) :
    Reports L text ↔ (∃ m, InTime L d m) ∨ ∃ m, Inherited L d m := by
  rw [reports_iff_firstFault h, firstFault_keyAgain_iff hkeys]
  constructor
  · rintro ⟨m, nodes, hturn, hagain⟩
    by_cases heq : keyScalars L nodes m = keyScalars L d.nodes m
    · exact .inl ⟨m, heq ▸ hagain, nodes, hturn, heq⟩
    · exact .inr ⟨m, nodes, hturn, heq, hagain⟩
  · rintro (⟨m, hagain, nodes, hturn, heq⟩ | ⟨m, nodes, hturn, -, hagain⟩)
    · exact ⟨m, nodes, hturn, heq ▸ hagain⟩
    · exact ⟨m, nodes, hturn, hagain⟩

omit [DecidableEq κ] in
theorem KeyAgain.not_nodup {scalars : List (Option κ)} (h : KeyAgain L scalars) :
    ¬ scalars.reduceOption.Nodup := by
  obtain ⟨seen, k, rest, rfl, -, hk, -⟩ := h
  have hreduce : (seen.map some ++ some k :: rest).reduceOption = seen ++ k :: rest.reduceOption := by
    rw [List.reduceOption_append, List.reduceOption_cons_of_some]
    simp [List.reduceOption, List.filterMap_map]
  rw [hreduce]
  intro hnodup
  exact (List.nodup_append.mp hnodup).2.2 k hk k List.mem_cons_self rfl

theorem InTime.writtenTwice {m : Fin d.size} (h : InTime L d m) (hkeys : ScalarKeys d.nodes) :
    WrittenTwice L d m :=
  (h.1.asKeys (hkeys m)).not_nodup

/-- **Duplicate keys are reported exactly if written**, where keys are scalars, exactly when what is
written is what is seen. -/
theorem reports_iff_writtenTwice_iff (h : L.compose text = .ok (some d)) (hkeys : ScalarKeys d.nodes) :
    (Reports L text ↔ ∃ m, WrittenTwice L d m) ↔ SeenAsWritten L d := by
  rw [reports_iff h hkeys]
  constructor
  · intro hiff
    by_cases hwritten : ∃ m, WrittenTwice L d m
    · obtain ⟨m, hm⟩ := hwritten
      rcases hiff.mpr ⟨m, hm⟩ with ⟨m', hm'⟩ | ⟨m', hm'⟩
      · exact .inTime hm'
      · exact .both hm hm'
    · exact .neither (fun m hm => hwritten ⟨m, hm⟩) fun m hm => hwritten (hiff.mp (.inr ⟨m, hm⟩))
  · intro hseen
    cases hseen with
    | inTime hm => exact iff_of_true (.inl ⟨_, hm⟩) ⟨_, hm.writtenTwice hkeys⟩
    | neither hnone hinherited =>
      refine iff_of_false ?_ fun ⟨m, hm⟩ => hnone m hm
      rintro (⟨m, hm⟩ | ⟨m, hm⟩)
      · exact hnone m (hm.writtenTwice hkeys)
      · exact hinherited m hm
    | both hm hm' => exact iff_of_true (.inr ⟨_, hm'⟩) ⟨_, hm⟩

end

/-! ### What is missed, and what is made up -/

namespace Merged

/-- Scalars are strings, and every text is one document. -/
def library (d : Document) : Library String where
  compose := fun _ => .ok (some d)
  scalar := fun _ text => .ok text
  repr := fun k => .ok (pyRepr k)
  str := id
  stack := 100

variable {ι : Type}

def map (pairs : List (ι × ι)) : Node ι := ⟨"tag:yaml.org,2002:map", .mapping pairs⟩
def text (s : String) : Node ι := ⟨STR, .scalar s⟩
def merge : Node ι := ⟨MERGE, .scalar "<<"⟩

/-- `services: {a: {<<: {image: x, image: y}}}` -/
def inline : Document where
  size := 10
  nodes
    | 0 => map [(1, 2)]
    | 1 => text "services"
    | 2 => map [(3, 4)]
    | 3 => text "a"
    | 4 => map [(5, 6)]
    | 5 => merge
    | 6 => map [(7, 8), (7, 9)]
    | 7 => text "image"
    | 8 => text "x"
    | 9 => text "y"
  root := 0

/-- `x-base: [&a {<<: {image: x}, image: y}]` above `services: {a: {<<: *a}}` -/
def anchored : Document where
  size := 13
  nodes
    | 0 => map [(1, 2), (3, 4)]
    | 1 => text "x-base"
    | 2 => ⟨"tag:yaml.org,2002:seq", .sequence [6]⟩
    | 3 => text "services"
    | 4 => map [(5, 12)]
    | 5 => text "a"
    | 6 => map [(7, 8), (9, 11)]
    | 7 => merge
    | 8 => map [(9, 10)]
    | 9 => text "image"
    | 10 => text "x"
    | 11 => text "y"
    | 12 => map [(7, 6)]
  root := 0

/-- `services: {radar: x, radar: y}` -/
def radar : Document where
  size := 6
  nodes
    | 0 => map [(1, 2)]
    | 1 => text "services"
    | 2 => map [(3, 4), (3, 5)]
    | 3 => text "radar"
    | 4 => text "x"
    | 5 => text "y"
  root := 0

/-- What is written twice in `inline` is missed. -/
theorem not_reports_as_written :
    ¬ ∀ (L : Library String) (text : String) (d : Document), L.compose text = .ok (some d) →
      ScalarKeys d.nodes → (Reports L text ↔ ∃ m, WrittenTwice L d m) := by
  intro h
  have hiff := h (library inline) "" inline rfl (by decide)
  exact absurd (hiff.mpr (by decide +kernel)) (by decide +kernel)

/-- What `anchored` is refused for is not written. -/
example : Reports (library anchored) "" ∧ ¬ ∃ m, WrittenTwice (library anchored) anchored m := by
  decide +kernel

theorem seenAsWritten_radar : SeenAsWritten (library radar) radar :=
  have h : (library radar).compose "" = .ok (some radar) := rfl
  (reports_iff_writtenTwice_iff h (by decide)).mp <| iff_of_true (by decide +kernel) (by decide +kernel)

end Merged

end KeelsonDocker.PlatformRepo
