import KeelsonDocker.Verify.ReadVersions
import Mathlib.Data.Finite.Sum
import Mathlib.Order.OrderIsoNat

/-!
# Every request is answered

Reads and saves run beside each other, follow links by hand on a tree that changes under them, and the
saves wait for one lock. Yet no run goes on for ever, and one that has come to a stop has answered every
request (`all_told`). Saves only take links away, so a thread that follows links meets none but those
there were at first, each of them once: what it has left to do is bounded by that first tree, whatever the
other threads do meanwhile (`roundsLeft_lt`).
-/

namespace KeelsonDocker

open FileSystem PlatformWrite

section

variable {ι κ : Type} {ctx : PlatformContext} {host : Host} {raw : Bytes} {writes : ι → Bytes}
  {reads : κ → Bytes} {T t t' : FileTree Bytes} {path : Path} {name : String} {a : Bool}
  {target : List String} {r r' : Resolving} {o : Option Resolving}

/-! ### Following links in a tree that loses them -/

/-- A link found at a clean path is one of the tree there was at first. -/
theorem node_of_lstat (hsub : Sub t.skeleton T) (hclean : Clean t.skeleton path)
    (h : t.lstat path name = .ok (.link a target)) : T.node (path ++ [name]) = some (.link a target) := by
  unfold FileTree.lstat at h
  cases hw : t.walk path with
  | error e => simp [hw] at h
  | ok d =>
    have hl : t.lookup d name = .ok (.link a target) := by simpa [hw] using h
    obtain ⟨n, _, hn⟩ := walk_eq_ok.mp hw
    have hdir : t.node d = some .dir := (FileTree.enter_eq_ok.mp (FileTree.enter_of_lookup hl)).1
    obtain ⟨_, rfl⟩ := hclean.located (hn.skeleton hdir)
    exact FileTree.node_of_lookup (hsub.lookup _ _ _ (skeleton_lookup hl rfl))

/-- The rounds that may be left. -/
def roundsLeft (T : FileTree Bytes) (r : Resolving) : Nat := r.stack.length + T.unseen r.seen

/-- What holds of a thread while the tree `T` has become `t`, with the links it follows, if any. -/
structure Follows (T t : FileTree Bytes) (o : Option Resolving) : Prop where
  sub : Sub t.skeleton T
  sound : ∀ r ∈ o, ∀ u, Sub u t.skeleton → Sound u r

theorem Follows.of_sub (h : Follows T t o) (hsub : Sub t'.skeleton t.skeleton) : Follows T t' o where
  sub := hsub.trans h.sub
  sound r hr u hu := h.sound r hr u (hu.trans hsub)

theorem Follows.none (hsub : Sub t.skeleton T) : Follows T t none := ⟨hsub, nofun⟩

theorem Follows.start (hsub : Sub t.skeleton T) (comps : List String) :
    Follows T t (some (.start comps)) where
  sub := hsub
  sound r hr u _ := by
    cases hr
    exact sound_start u comps

theorem Follows.step (h : Follows T t (some r)) (hstep : (r.step fun _ => t.lstat) = some r') :
    Follows T t (some r') where
  sub := h.sub
  sound r₁ hr u hu := by
    cases hr
    exact WriteRun.sound_of_step (h.sound r rfl) hstep u hu

/-- A round of following links, whatever the tree has become. -/
theorem roundsLeft_lt (h : Follows T t (some r)) (hstep : (r.step fun _ => t.lstat) = some r') :
    roundsLeft T r' < roundsLeft T r := by
  apply (round_of_step hstep).shorter_of_links
  intro _ name a target hlink
  exact node_of_lstat h.sub (h.sound r rfl _ (Sub.refl _)).clean hlink

/-! ### Writers -/

namespace WriteRun

/-- The links that are being followed. -/
def Phase.resolving : Phase → Option Resolving
  | .rooting _ _ r | .placing _ _ r | .relating _ _ r | .rerooting _ _ _ r => some r
  | _ => none

/-- What came of the request is known. -/
def Phase.Told : Phase → Prop
  | .refused _ | .ended _ => True
  | _ => False

/-- The phases to come, and what is left of this one. -/
def Phase.rank (T : FileTree Bytes) : Phase → Nat ×ₗ Nat
  | .arrived => toLex (6, 0)
  | .rooting _ _ r => toLex (5, roundsLeft T r)
  | .placing _ _ r => toLex (4, roundsLeft T r)
  | .relating _ _ r => toLex (3, roundsLeft T r)
  | .rerooting _ _ _ r => toLex (2, roundsLeft T r)
  | .waiting .. => toLex (1, PlatformWrite.Stage.checking.left + 1)
  | .refused _ | .ended _ => toLex (0, 0)

def Saving.rank (saving : Saving) : Nat ×ₗ Nat := toLex (1, saving.stage.left)

variable {phase : Phase} {saving : Saving}

theorem Phase.rank_lt {n m i j : Nat} (h : n < m ∨ n = m ∧ i < j) :
    (toLex (n, i) : Nat ×ₗ Nat) < toLex (m, j) :=
  Prod.Lex.toLex_lt_toLex.mpr h

variable (ctx host) in
/-- A thread outside goes on, unless it waits for the lock or has been told. -/
theorem look_cases (raw : Bytes) (h : Follows T t phase.resolving) :
    look ctx host raw t phase = phase ∧ (phase.Told ∨ ∃ save rel, phase = .waiting save rel) ∨
      Follows T t (look ctx host raw t phase).resolving ∧
        (look ctx host raw t phase).rank T < phase.rank T := by
  cases phase with
  | waiting save rel => exact .inl ⟨rfl, .inr ⟨save, rel, rfl⟩⟩
  | refused | ended => exact .inl ⟨rfl, .inl trivial⟩
  | arrived =>
    right
    simp only [look]
    split
    · exact ⟨.none h.sub, Phase.rank_lt (by omega)⟩
    · split
      · exact ⟨.none h.sub, Phase.rank_lt (by omega)⟩
      · exact ⟨.start h.sub _, Phase.rank_lt (by omega)⟩
  | rooting request parts r =>
    right
    simp only [look]
    split
    · rename_i hstep
      exact ⟨Follows.step h hstep, Phase.rank_lt (.inr ⟨rfl, roundsLeft_lt h hstep⟩)⟩
    · exact ⟨.start h.sub _, Phase.rank_lt (by omega)⟩
  | placing request rootReal r =>
    right
    simp only [look]
    split
    · rename_i hstep
      exact ⟨Follows.step h hstep, Phase.rank_lt (.inr ⟨rfl, roundsLeft_lt h hstep⟩)⟩
    · split
      · exact ⟨.none h.sub, Phase.rank_lt (by omega)⟩
      · exact ⟨.start h.sub _, Phase.rank_lt (by omega)⟩
  | relating request path r =>
    right
    simp only [look]
    split
    · rename_i hstep
      exact ⟨Follows.step h hstep, Phase.rank_lt (.inr ⟨rfl, roundsLeft_lt h hstep⟩)⟩
    · exact ⟨.start h.sub _, Phase.rank_lt (by omega)⟩
  | rerooting request path real r =>
    right
    simp only [look, decided]
    split
    · rename_i hstep
      exact ⟨Follows.step h hstep, Phase.rank_lt (.inr ⟨rfl, roundsLeft_lt h hstep⟩)⟩
    · split
      · exact ⟨.none h.sub, Phase.rank_lt (by omega)⟩
      · split <;> exact ⟨.none h.sub, Phase.rank_lt (by omega)⟩

/-- What holds of the thread inside, and of the tree when it took the lock. -/
structure Carrying (host : Host) (T t₀ : FileTree Bytes) (saving : Saving) (t : FileTree Bytes) : Prop where
  sub : Sub t.skeleton T
  holds : Holds host.sha256Of saving.save t₀ saving.stage t

theorem Carrying.carry {t₀ : FileTree Bytes} {chance : Chance} (h : Carrying host T t₀ saving t) :
    Carrying host T t₀ (carry host chance saving t).1 (carry host chance saving t).2 where
  sub := (carry_skeleton_sub h.holds).trans h.sub
  holds := h.holds.advance

theorem rules_follows (T : FileTree Bytes) : Critical.Rules (program ctx host writes)
    (fun _ t phase => Follows T t phase.resolving) (fun _ => Carrying host T) where
  roam {i x l l'} h hroam := by
    subst hroam
    rcases look_cases ctx host (writes i) h with ⟨hlook, _⟩ | ⟨hfollows, _⟩
    · rw [hlook]
      exact h
    · exact hfollows
  enter h henter := by
    obtain ⟨save, rel, _, rfl⟩ := henter
    exact ⟨h.sub, rfl⟩
  work h hwork := by
    obtain ⟨chance, hwork⟩ := hwork
    cases hwork
    exact h.carry
  stands h hwork hfollows := by
    obtain ⟨chance, hwork⟩ := hwork
    cases hwork
    exact hfollows.of_sub (carry_skeleton_sub h.holds)
  leave h hleave := by
    obtain ⟨_, _, _, _, rfl⟩ := hleave
    exact .none h.sub

variable (host) in
/-- A stage brings the end of a save closer, or it has ended. -/
theorem carry_cases (chance : Chance) (saving : Saving) (t : FileTree Bytes) :
    (∃ result, saving.stage = .ended result ∧ carry host chance saving t = (saving, t)) ∨
      (carry host chance saving t).1.rank < saving.rank := by
  by_cases hended : ∃ result, saving.stage = .ended result
  · obtain ⟨result, hresult⟩ := hended
    refine .inl ⟨result, hresult, ?_⟩
    obtain ⟨save, rel, stage⟩ := saving
    cases hresult
    rfl
  · have hleft := advance_left host.sha256Of saving.save chance t fun result hr => hended ⟨result, hr⟩
    exact .inr (Phase.rank_lt (.inr ⟨rfl, hleft⟩))

theorem ends (T : FileTree Bytes) : Critical.Ends (program ctx host writes)
    (fun _ t phase => Follows T t phase.resolving) (fun _ => Carrying host T) Phase.Told (Phase.rank T)
    Saving.rank where
  roam {i x l l'} h hroam hne := by
    subst hroam
    rcases look_cases ctx host (writes i) h with ⟨hlook, _⟩ | ⟨_, hlt⟩
    · exact absurd hlook hne
    · exact hlt
  enter henter := by
    obtain ⟨save, rel, rfl, rfl⟩ := henter
    exact Phase.rank_lt (.inr ⟨rfl, Nat.lt_succ_self _⟩)
  work {i x₀ c x c' x'} h hwork hne := by
    obtain ⟨chance, hwork⟩ := hwork
    rcases carry_cases host chance c x with ⟨_, _, hsame⟩ | hlt
    · exact absurd (hwork.trans hsame) hne
    · rw [← hwork] at hlt
      exact hlt
  leave hleave := by
    obtain ⟨_, _, _, _, rfl⟩ := hleave
    exact Phase.rank_lt (by omega)
  goes {i x l} h hnot := by
    rcases look_cases ctx host (writes i) h with ⟨_, htold | hwaiting⟩ | ⟨_, hlt⟩
    · exact absurd htold hnot
    · obtain ⟨save, rel, rfl⟩ := hwaiting
      exact .inr ⟨_, save, rel, rfl, rfl⟩
    · exact .inl ⟨_, rfl, fun heq => (heq ▸ hlt).false⟩
  proceeds {i x₀ c x} h := by
    rcases carry_cases host {} c x with ⟨result, hended, _⟩ | hlt
    · exact .inr ⟨_, result, host.git, host.fetchHead, hended, rfl⟩
    · refine .inl ⟨_, _, ⟨{}, rfl⟩, fun heq => ?_⟩
      have hsame : (carry host {} c x).1 = c := congrArg Prod.fst heq
      rw [hsame] at hlt
      exact hlt.false

end WriteRun

/-! ### Readers -/

namespace ReadRun

/-- The links that are being followed. -/
def Phase.resolving : Phase → Option Resolving
  | .rooting _ r | .placing _ r | .relating _ r | .rerooting _ _ r => some r
  | _ => none

/-- What came of the request is known. -/
def Phase.Told : Phase → Prop
  | .answered .. | .refused _ => True
  | _ => False

/-- The phases to come, and what is left of this one. -/
def Phase.rank (T : FileTree Bytes) : Phase → Nat ×ₗ Nat
  | .arrived => toLex (8, 0)
  | .rooting _ r => toLex (7, roundsLeft T r)
  | .placing _ r => toLex (6, roundsLeft T r)
  | .checking _ => toLex (5, 0)
  | .relating _ r => toLex (4, roundsLeft T r)
  | .rerooting _ _ r => toLex (3, roundsLeft T r)
  | .reading .. => toLex (2, 0)
  | .sizing .. => toLex (1, 0)
  | .answered .. | .refused _ => toLex (0, 0)

open WriteRun.Phase (rank_lt)

variable (ctx host) in
/-- A reader goes on unless it has been told. -/
theorem look_cases {phase : Phase} (raw : Bytes) (h : Follows T t phase.resolving) :
    look ctx host raw t phase = phase ∧ phase.Told ∨
      Follows T t (look ctx host raw t phase).resolving ∧
        (look ctx host raw t phase).rank T < phase.rank T := by
  cases phase with
  | answered | refused => exact .inl ⟨rfl, trivial⟩
  | arrived =>
    right
    simp only [look]
    split
    · exact ⟨.none h.sub, rank_lt (by omega)⟩
    · split
      · exact ⟨.none h.sub, rank_lt (by omega)⟩
      · exact ⟨.start h.sub _, rank_lt (by omega)⟩
  | rooting parts r =>
    right
    simp only [look]
    split
    · rename_i hstep
      exact ⟨Follows.step h hstep, rank_lt (.inr ⟨rfl, roundsLeft_lt h hstep⟩)⟩
    · exact ⟨.start h.sub _, rank_lt (by omega)⟩
  | placing rootReal r =>
    right
    simp only [look]
    split
    · rename_i hstep
      exact ⟨Follows.step h hstep, rank_lt (.inr ⟨rfl, roundsLeft_lt h hstep⟩)⟩
    · split <;> exact ⟨.none h.sub, rank_lt (by omega)⟩
  | checking path =>
    right
    simp only [look]
    split
    · exact ⟨.none h.sub, rank_lt (by omega)⟩
    · exact ⟨.start h.sub _, rank_lt (by omega)⟩
  | relating path r =>
    right
    simp only [look]
    split
    · rename_i hstep
      exact ⟨Follows.step h hstep, rank_lt (.inr ⟨rfl, roundsLeft_lt h hstep⟩)⟩
    · exact ⟨.start h.sub _, rank_lt (by omega)⟩
  | rerooting path real r =>
    right
    simp only [look]
    split
    · rename_i hstep
      exact ⟨Follows.step h hstep, rank_lt (.inr ⟨rfl, roundsLeft_lt h hstep⟩)⟩
    · split <;> exact ⟨.none h.sub, rank_lt (by omega)⟩
  | reading path rel =>
    right
    simp only [look]
    split <;> exact ⟨.none h.sub, rank_lt (by omega)⟩
  | sizing path rel content truncated =>
    right
    simp only [look]
    split
    · exact ⟨.none h.sub, rank_lt (by omega)⟩
    · split <;> exact ⟨.none h.sub, rank_lt (by omega)⟩

/-- What holds of a writer, or of a reader. -/
abbrev Followed (T : FileTree Bytes) : ι ⊕ κ → FileTree Bytes → WriteRun.Phase ⊕ Phase → Prop :=
  Critical.goodBeside (fun _ t phase => Follows T t phase.resolving)
    fun _ t phase => Follows T t phase.resolving

abbrev Carried (host : Host) (T : FileTree Bytes) :
    ι ⊕ κ → FileTree Bytes → WriteRun.Saving → FileTree Bytes → Prop :=
  Critical.invBeside κ fun _ => WriteRun.Carrying host T

theorem rules_followed (T : FileTree Bytes) :
    Critical.Rules (program ctx host writes reads) (Followed T) (Carried host T) := by
  apply (WriteRun.rules_follows T).beside
  · rintro k t phase phase' h ⟨mtime, hlook⟩
    subst hlook
    rcases look_cases ctx { host with mtime } (reads k) h with ⟨hlook, _⟩ | ⟨hfollows, _⟩
    · rw [hlook]
      exact h
    · exact hfollows
  · rintro i t₀ saving t saving' t' k phase h ⟨chance, hwork⟩ hfollows
    cases hwork
    exact hfollows.of_sub (WriteRun.carry_skeleton_sub h.holds)

theorem ends (T : FileTree Bytes) :
    Critical.Ends (program ctx host writes reads) (Followed T) (Carried host T)
      (Sum.elim WriteRun.Phase.Told Phase.Told)
      (Sum.elim (WriteRun.Phase.rank T) (Phase.rank T)) WriteRun.Saving.rank := by
  apply (WriteRun.ends T).beside
  · rintro k t phase phase' h ⟨mtime, hlook⟩ hne
    subst hlook
    rcases look_cases ctx { host with mtime } (reads k) h with ⟨hlook, _⟩ | ⟨_, hlt⟩
    · exact absurd hlook hne
    · exact hlt
  · intro k t phase h hnot
    rcases look_cases ctx host (reads k) h with ⟨_, htold⟩ | ⟨_, hlt⟩
    · exact absurd htold hnot
    · exact ⟨_, ⟨host.mtime, rfl⟩, fun heq => (heq ▸ hlt).false⟩

theorem followed_start (t₀ : FileTree Bytes) :
    Critical.Orderly (program ctx host writes reads) (Followed t₀.skeleton) (Carried host t₀.skeleton) t₀
      (start t₀) := by
  apply Critical.orderly_start
  rintro (i | k)
  · exact Follows.none (Sub.refl _)
  · exact Follows.none (Sub.refl _)

/-- **Every request is answered**: no run of readers and writers goes on for ever, and where it stops, the
lock is free and each of them has been told. -/
theorem all_told [DecidableEq ι] [DecidableEq κ] [Finite ι] [Finite κ] {t₀ : FileTree Bytes}
    {s : State ι κ} (h : Critical.Reached (program ctx host writes reads) (start t₀) s) :
    (¬ ∃ run : Nat → State ι κ, run 0 = s ∧
      ∀ n, Critical.Move (program ctx host writes reads) (run n) (run (n + 1))) ∧
    ((∀ s', ¬ Critical.Move (program ctx host writes reads) s s') →
      s.holder = none ∧ ∀ i, Sum.elim WriteRun.Phase.Told Phase.Told (s.locals i)) := by
  have horderly := (rules_followed t₀.skeleton).reached (followed_start t₀) h
  constructor
  · rw [← not_acc_iff_exists_descending_chain (r := fun s' s => Critical.Move _ s s'), not_not]
    exact (ends t₀.skeleton).acc (rules_followed t₀.skeleton) horderly
  · exact (ends t₀.skeleton).over horderly

end ReadRun

end

namespace ReadRun.Overwritten

open WriteRun.Edit

theorem all_told_torn : ∃ s : State Unit Unit, s.locals (.inr ()) = .inr (.answered place torn) ∧
    (¬ ∃ run : Nat → State Unit Unit, run 0 = s ∧
      ∀ n, Critical.Move (program ctx longer (fun _ => []) fun _ => []) (run n) (run (n + 1))) ∧
    ((∀ s', ¬ Critical.Move (program ctx longer (fun _ => []) fun _ => []) s s') →
      s.holder = none ∧ ∀ i, Sum.elim WriteRun.Phase.Told Phase.Told (s.locals i)) := by
  obtain ⟨s, hs, hanswered⟩ := reached_torn
  exact ⟨s, hanswered, all_told hs⟩

end ReadRun.Overwritten

end KeelsonDocker
