import KeelsonDocker.Verify.ReadVersions

/-!
# Reads and saves are linearizable

The saves are one after another, so the tree has versions: the first one, and one more for every turn
taken, as soon as the file is in its place. A read takes no lock and looks at the tree many times. Yet what
it answers of a file that stands is what one version holds of it, a version not older than the newest one
when the request came in (`linear`): what a client has been told is saved, no later read misses, and no
read shows less than one answered before it began.
-/

namespace KeelsonDocker.ReadRun

open FileSystem PlatformWrite WriteRun

section

variable {ι κ : Type} {ctx : PlatformContext} {host : Host} {writes : ι → Bytes} {reads : κ → Bytes}
  {t t₀ t₁ : FileTree Bytes} {path : Path} {s s' s₁ s₂ : State ι κ} {i : ι} {k : κ} {saving : Saving}
  {content : Bytes} {phase : Phase}

/-! ### Versions -/

/-- The save has been carried through. -/
def carried : PlatformWrite.Stage → Bool
  | .ended (.ok _) => true
  | _ => false

theorem carried_iff : carried saving.stage = true ↔ Completed saving := by
  unfold carried Completed
  split
  · rename_i h
    simp [h]
  · rename_i hne
    simpa using hne ()

/-- What the one inside has put into place. -/
def installed (s : State ι κ) : List (FileTree Bytes) :=
  if s.holder.any fun h => carried h.now.stage then [s.shared] else []

/-- The tree as each turn has left it, the newest one last. -/
def versions (t₀ : FileTree Bytes) (s : State ι κ) : List (FileTree Bytes) :=
  t₀ :: s.turns.map (·.after) ++ installed s

def newest (s : State ι κ) : FileTree Bytes :=
  if s.holder.any fun h => carried h.now.stage then s.shared else s.settled

/-- What holds of a state that readers and writers can get to. -/
abbrev Ordered (ctx : PlatformContext) (host : Host) (writes : ι → Bytes) (reads : κ → Bytes)
    (t₀ : FileTree Bytes) (s : State ι κ) : Prop :=
  Critical.Orderly (program ctx host writes reads)
    (Critical.goodBeside (Good host writes) fun _ _ _ => True)
    (Critical.invBeside κ (Inside host writes)) t₀ s

theorem rules_ordered (ctx : PlatformContext) (host : Host) (writes : ι → Bytes) (reads : κ → Bytes) :
    Critical.Rules (program ctx host writes reads)
      (Critical.goodBeside (Good host writes) fun _ _ _ => True)
      (Critical.invBeside κ (Inside host writes)) :=
  (rules ctx host writes).beside (fun _ _ => trivial) fun _ _ _ => trivial

theorem ordered_start (t₀ : FileTree Bytes) : Ordered ctx host writes reads t₀ (start t₀) := by
  apply Critical.orderly_start
  rintro (i | k)
  · exact (trivial : Good host writes i t₀ .arrived)
  · trivial

theorem versions_getLast? (h : Ordered ctx host writes reads t₀ s) :
    (versions t₀ s).getLast? = some (newest s) := by
  unfold versions installed newest
  split
  · exact List.getLast?_concat
  · simpa using h.chain.getLast?

/-! ### What stands -/

/-- Until a save is carried through, what stood before it stands. -/
theorem stands_of_inside (h : Inside host writes i t₁ saving t) (hc : ¬ Completed saving)
    (hstands : Stands t₁ path content) : Stands t path content := by
  obtain ⟨save, rel, stage⟩ := saving
  have hholds := h.holds
  have hstaged {tmp : Temp} {data : Bytes} (hs : Staged save t₁ t tmp data) : Stands t path content := by
    obtain ⟨mode, hsets⟩ := hs.sets
    refine hstands.of_sets ?_ hsets
    rintro rfl
    obtain ⟨_, hn⟩ := hstands.node
    rw [hs.fresh] at hn
    cases hn
  cases stage with
  | checking =>
    cases hholds
    exact hstands
  | preparing | creating =>
    obtain ⟨rfl, _⟩ := hholds
    exact hstands
  | writing | syncing | chmodding | replacing => exact hstaged hholds.2
  | cleaning =>
    obtain ⟨_, hs⟩ := hholds
    exact hstaged hs
  | ended result => exact hstands.of_same (h.same rfl hc)

/-- Once it is, what stood before it stands, or the new content does. -/
theorem stands_of_landed (h : Inside host writes i t₁ saving t) (hc : Completed saving)
    (hstands : Stands t₁ path content) : ∃ content', Stands t path content' := by
  have hlanded := h.landed hc
  by_cases hpath : path = saving.save.path
  · exact ⟨_, hpath ▸ hlanded.stands⟩
  · obtain ⟨mode, hsets⟩ := hlanded.sets
    exact ⟨content, hstands.of_sets hpath hsets⟩

/-- What stands in the newest version stands. -/
theorem stands_shared (h : Ordered ctx host writes reads t₀ s) (hstands : Stands (newest s) path content) :
    Stands s.shared path content := by
  cases hholder : s.holder with
  | none => simpa [newest, Critical.State.settled, hholder] using hstands
  | some holder =>
    obtain ⟨i, _, hinside⟩ := Critical.invBeside_iff.mp (h.inside holder hholder)
    by_cases hc : Completed holder.now
    · simpa [newest, hholder, carried_iff.mpr hc] using hstands
    · refine stands_of_inside hinside hc ?_
      have hnot : carried holder.now.stage = false := by simpa using mt carried_iff.mp hc
      simpa [newest, Critical.State.settled, hholder, hnot] using hstands

/-! ### What a step does to the versions -/

/-- A save that has been carried through stays as it is. -/
theorem work_of_completed {i : ι ⊕ κ} {saving' : Saving} (hc : Completed saving)
    (hwork : (program ctx host writes reads).work i saving t saving' t₁) : saving' = saving ∧ t₁ = t := by
  cases i with
  | inr k => cases hwork
  | inl i =>
    obtain ⟨chance, hwork⟩ := hwork
    obtain ⟨save, rel, stage⟩ := saving
    cases hc
    cases hwork
    exact ⟨rfl, rfl⟩

theorem not_carried_of_enter {i : ι ⊕ κ} {l : WriteRun.Phase ⊕ Phase}
    (henter : (program ctx host writes reads).enter i l saving) : carried saving.stage = false := by
  cases i with
  | inr k => cases l <;> cases henter
  | inl i =>
    cases l with
    | inr phase => cases henter
    | inl phase =>
      obtain ⟨_, _, _, rfl⟩ := henter
      rfl

variable [DecidableEq ι] [DecidableEq κ]

theorem versions_step (hstep : Critical.Step (program ctx host writes reads) s s') :
    versions t₀ s <+: versions t₀ s' := by
  cases hstep with
  | roam => exact List.prefix_refl _
  | enter hfree henter => simp [versions, installed, hfree]
  | @work holder c x hholder hwork =>
    by_cases hc : Completed holder.now
    · obtain ⟨rfl, rfl⟩ := work_of_completed hc hwork
      simp [versions, installed, hholder]
    · have hnot : carried holder.now.stage = false := by simpa using mt carried_iff.mp hc
      simp [versions, installed, hholder, hnot]
  | @leave holder l hholder hleave =>
    simp only [versions, installed, hholder]
    split <;> simp

/-- What stands goes on standing, with what content ever. -/
theorem stands_step (h : Ordered ctx host writes reads t₀ s)
    (hstep : Critical.Step (program ctx host writes reads) s s')
    (hstands : Stands (newest s) path content) : ∃ content', Stands (newest s') path content' := by
  have hshared := stands_shared h hstands
  have h' := (rules_ordered ctx host writes reads).step h hstep
  cases hstep with
  | roam => exact ⟨content, hstands⟩
  | enter hfree henter =>
    have hnot := not_carried_of_enter henter
    exact ⟨content, by simpa [newest, Critical.State.settled, hnot] using hshared⟩
  | @work holder c x hholder hwork =>
    by_cases hc : Completed holder.now
    · obtain ⟨rfl, rfl⟩ := work_of_completed hc hwork
      exact ⟨content, by simpa [newest, carried_iff.mpr hc] using hshared⟩
    · have hnot : carried holder.now.stage = false := by simpa using mt carried_iff.mp hc
      have hbefore : Stands holder.before path content := by
        simpa [newest, Critical.State.settled, hholder, hnot] using hstands
      obtain ⟨i, _, hinside⟩ := Critical.invBeside_iff.mp (h'.inside _ rfl)
      by_cases hc' : Completed c
      · obtain ⟨content', hcontent'⟩ := stands_of_landed hinside hc' hbefore
        exact ⟨content', by simpa [newest, carried_iff.mpr hc'] using hcontent'⟩
      · have hnot' : carried c.stage = false := by simpa using mt carried_iff.mp hc'
        exact ⟨content, by simpa [newest, Critical.State.settled, hnot'] using hbefore⟩
  | @leave holder l hholder hleave => exact ⟨content, hshared⟩

/-! ### Readers -/

/-- A reader stays where it is, or looks at the tree. -/
theorem reader_moves (hstep : Critical.Step (program ctx host writes reads) s s')
    (hphase : s.locals (.inr k) = .inr phase) :
    s'.locals (.inr k) = .inr phase ∨
      s'.shared = s.shared ∧
        ∃ mtime, s'.locals (.inr k) = .inr (look ctx { host with mtime } (reads k) s.shared phase) := by
  cases hstep with
  | @roam i l houtside hroam =>
    dsimp only
    by_cases hi : .inr k = i
    · subst hi
      rw [hphase] at hroam
      cases l with
      | inl l => exact hroam.elim
      | inr phase' =>
        obtain ⟨mtime, hlook⟩ : ∃ mtime, phase' = look ctx { host with mtime } (reads k) s.shared phase :=
          hroam
        exact .inr ⟨rfl, mtime, by rw [Function.update_self, hlook]⟩
    · exact .inl (by rw [Function.update_of_ne hi, hphase])
  | enter => exact .inl hphase
  | work => exact .inl hphase
  | @leave holder l hholder hleave =>
    dsimp only
    by_cases hi : .inr k = holder.thread
    · rw [← hi] at hleave
      exact hleave.elim
    · exact .inl (by rw [Function.update_of_ne hi, hphase])

/-- The bytes are those that a version holds at the path, the one numbered `n` or a later one. -/
def OfVersion (t₀ : FileTree Bytes) (s : State ι κ) (n : Nat) (path : Path) (content : Bytes) : Prop :=
  ∃ m ≥ n, ∃ t, (versions t₀ s)[m]? = some t ∧ ∃ version, Stands t path version ∧
    (content = version ∨ content = version.take PlatformRepo.MAX_FILE_BYTES)

/-- What is known of a reader of the path. -/
def Shows (host : Host) (t₀ : FileTree Bytes) (s : State ι κ) (n : Nat) (path : Path) : Phase → Prop
  | .sizing place _ content _ => place = path → OfVersion t₀ s n path content
  | .answered place r =>
    place = path → OfVersion t₀ s n path r.content ∧ r.sha256 = host.sha256Of r.content
  | _ => True

omit [DecidableEq ι] [DecidableEq κ]

variable {n : Nat}

theorem OfVersion.mono (h : OfVersion t₀ s n path content) (hgrows : versions t₀ s <+: versions t₀ s') :
    OfVersion t₀ s' n path content := by
  obtain ⟨m, hm, t, ht, hversion⟩ := h
  obtain ⟨more, hmore⟩ := hgrows
  refine ⟨m, hm, t, ?_, hversion⟩
  rw [← hmore]
  exact List.getElem?_append_left (List.getElem?_eq_some_iff.mp ht).1 ▸ ht

theorem Shows.mono (h : Shows host t₀ s n path phase) (hgrows : versions t₀ s <+: versions t₀ s') :
    Shows host t₀ s' n path phase := by
  cases phase with
  | sizing => exact fun hplace => (h hplace).mono hgrows
  | answered => exact fun hplace => ⟨(h hplace).1.mono hgrows, (h hplace).2⟩
  | _ => trivial

/-- What a reader reads is what the newest version holds. -/
theorem ofVersion_of_read {read : Bytes × Bool} (h : Ordered ctx host writes reads t₀ s)
    (hstands : Stands (newest s) path content) (hn : n < (versions t₀ s).length)
    (hread : PlatformRepo.readBytes s.shared path = .ok read) : OfVersion t₀ s n path read.1 := by
  have hlast := versions_getLast? h
  rw [List.getLast?_eq_getElem?] at hlast
  refine ⟨_, Nat.le_sub_one_of_lt hn, newest s, hlast, content, hstands, ?_⟩
  simp only [PlatformRepo.readBytes, (stands_shared h hstands).read] at hread
  split at hread
  · cases hread
    exact .inr rfl
  · cases hread
    exact .inl rfl

theorem Shows.look {raw : Bytes} (mtime : Path → PlatformRepo.Mtime) (h : Ordered ctx host writes reads t₀ s)
    (hstands : Stands (newest s) path content) (hn : n < (versions t₀ s).length)
    (hshows : Shows host t₀ s n path phase) :
    Shows host t₀ s n path (look ctx { host with mtime } raw s.shared phase) := by
  cases phase with
  | reading place rel =>
    simp only [ReadRun.look]
    split
    · trivial
    · rename_i hread
      rintro rfl
      exact ofVersion_of_read h hstands hn hread
  | sizing place rel content' truncated =>
    simp only [ReadRun.look]
    split
    · trivial
    · split
      · trivial
      · rename_i r hr
        rw [PlatformHandlers.dated_eq_ok hr]
        exact fun hplace => ⟨hshows hplace, rfl⟩
  | answered => exact hshows
  | refused => trivial
  | arrived | rooting | placing | checking | relating | rerooting =>
    simp only [ReadRun.look]
    repeat' split
    all_goals trivial

/-! ### Runs -/

/-- What a reply is to a request that came in while the tree had the versions of `s₁`. -/
structure Linear (host : Host) (t₀ : FileTree Bytes) (s₁ s₂ : State ι κ) (path : Path)
    (r : ReadFileResponse) : Prop where
  grows : versions t₀ s₁ <+: versions t₀ s₂
  /-- A save is the version after it. -/
  saved : ∀ n turn, s₂.turns[n]? = some turn → Completed turn.ended →
    ∃ t, (versions t₀ s₂)[n + 1]? = some t ∧ Stands t turn.ended.save.path turn.ended.save.content
  shown : OfVersion t₀ s₂ ((versions t₀ s₁).length - 1) path r.content
  sha256 : r.sha256 = host.sha256Of r.content

theorem saved_version (h : Ordered ctx host writes reads t₀ s)
    {turn : Critical.Turn (ι ⊕ κ) (FileTree Bytes) (WriteRun.Phase ⊕ Phase) Saving}
    (hturn : s.turns[n]? = some turn) (hc : Completed turn.ended) :
    ∃ t, (versions t₀ s)[n + 1]? = some t ∧ Stands t turn.ended.save.path turn.ended.save.content := by
  obtain ⟨i, _, hinside⟩ := Critical.invBeside_iff.mp (h.taken turn (List.mem_of_getElem? hturn)).1
  have hlt : n < s.turns.length := (List.getElem?_eq_some_iff.mp hturn).1
  refine ⟨turn.after, ?_, (hinside.landed hc).stands⟩
  rw [versions, List.cons_append, List.getElem?_cons_succ,
    List.getElem?_append_left (by simpa using hlt), List.getElem?_map, hturn]
  rfl

/-- **Reads and saves are linearizable**, as far as a file stands: what a read answers is what one version
holds, not older than the newest one when the request came in. -/
theorem linear [DecidableEq ι] [DecidableEq κ] {r : ReadFileResponse}
    (h₁ : Critical.Reached (program ctx host writes reads) (start t₀) s₁)
    (hk : s₁.locals (.inr k) = .inr .arrived) (hstands : Stands (newest s₁) path content)
    (h₂ : Critical.Reached (program ctx host writes reads) s₁ s₂)
    (hanswered : s₂.locals (.inr k) = .inr (.answered path r)) : Linear host t₀ s₁ s₂ path r := by
  have hrules := rules_ordered ctx host writes reads
  have h₀ : Ordered ctx host writes reads t₀ s₁ := hrules.reached (ordered_start t₀) h₁
  let n := (versions t₀ s₁).length - 1
  have hpos : n < (versions t₀ s₁).length := by
    simp only [n, versions, List.cons_append, List.length_cons]
    omega
  suffices hrun : Ordered ctx host writes reads t₀ s₂ ∧ versions t₀ s₁ <+: versions t₀ s₂ ∧
      (∃ content', Stands (newest s₂) path content') ∧
      ∃ phase, s₂.locals (.inr k) = .inr phase ∧ Shows host t₀ s₂ n path phase by
    obtain ⟨hordered, hgrows, _, phase, hphase, hshows⟩ := hrun
    cases hphase.symm.trans hanswered
    obtain ⟨hshown, hsha⟩ := hshows rfl
    exact ⟨hgrows, fun n turn => saved_version hordered, hshown, hsha⟩
  clear hanswered
  induction h₂ with
  | refl => exact ⟨h₀, List.prefix_refl _, ⟨content, hstands⟩, .arrived, hk, trivial⟩
  | @tail s s' _ hstep ih =>
    obtain ⟨hordered, hgrows, ⟨content', hcontent'⟩, phase, hphase, hshows⟩ := ih
    have hgrows' : versions t₀ s <+: versions t₀ s' := versions_step hstep
    refine ⟨hrules.step hordered hstep, hgrows.trans hgrows', stands_step hordered hstep hcontent', ?_⟩
    rcases reader_moves hstep hphase with hstays | ⟨_, mtime, hlooks⟩
    · exact ⟨phase, hstays, hshows.mono hgrows'⟩
    · have hn : n < (versions t₀ s).length := hpos.trans_le hgrows.length_le
      exact ⟨_, hlooks, (hshows.look mtime hordered hcontent' hn).mono hgrows'⟩

end

namespace Overwritten

open WriteRun.Edit

theorem stands_note : Stands tree place [111] where
  located := ⟨.dir, rfl, rfl, .file 0o644 [111], rfl, rfl, trivial⟩
  node := ⟨0o644, rfl⟩
  readable := rfl

theorem linear_torn : ∃ s : State Unit Unit, Linear longer tree (start tree) s place torn := by
  obtain ⟨s, hs, hanswered⟩ := reached_torn
  have hstands : Stands (newest (start tree : State Unit Unit)) place [111] := stands_note
  exact ⟨s, linear .refl rfl hstands hs hanswered⟩

end Overwritten

end KeelsonDocker.ReadRun
