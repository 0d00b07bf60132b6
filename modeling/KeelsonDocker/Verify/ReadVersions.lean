import KeelsonDocker.ReadRun
import KeelsonDocker.Verify.CompareAndSwap

/-!
# Which version a read reply describes

`read_file` reads the bytes of a file and afterwards asks for its size, without the lock. In a run where no
step changes the size of a file between the two, every reply describes one version of it
(`oneVersion_of_answered`). A save that is carried through in between makes a reply of two
(`Overwritten.not_oneVersion`).
-/

namespace KeelsonDocker.ReadRun

open Effect FileSystem Relation
open WriteRun (Looks looks_once)

variable {ι κ : Type} {ctx : PlatformContext} {host : Host} {writes : ι → Bytes} {reads : κ → Bytes}
  {raw : Bytes} {t t₀ : FileTree Bytes} {path : Path} {rel : String}

abbrev State (ι κ : Type) :=
  Critical.State (ι ⊕ κ) (FileTree Bytes) (WriteRun.Phase ⊕ Phase) WriteRun.Saving

/-- A reply describes these bytes as the file. -/
structure OneVersion (host : Host) (r : ReadFileResponse) (version : Bytes) : Prop where
  content : r.content = version ∨ r.content = version.take PlatformRepo.MAX_FILE_BYTES
  sha256 : r.sha256 = host.sha256Of r.content
  truncated : r.truncated = true ↔ PlatformRepo.MAX_FILE_BYTES < version.length
  size : r.sizeBytes = version.length

/-- Of no file that a reader has read and is about to size does the step change the size. -/
def Undisturbed (s s' : State ι κ) : Prop :=
  ∀ k path rel content truncated, s.locals (.inr k) = .inr (.sizing path rel content truncated) →
    PlatformRepo.statSize s'.shared path = PlatformRepo.statSize s.shared path

/-! ### What a read and a size tell together -/

theorem statSize_of_read {version : Bytes} (h : t.read path = .ok version) :
    PlatformRepo.statSize t path = .ok version.length := by
  obtain ⟨k, mode, hw, hn, -⟩ := PlatformWrite.read_eq_ok.mp h
  simp [PlatformRepo.statSize, FileTree.stat, hw, hn]

theorem oneVersion_of_tree {r : ReadFileResponse}
    (hbytes : PlatformRepo.readBytes t path = .ok (r.content, r.truncated))
    (hsize : PlatformRepo.statSize t path = .ok r.sizeBytes)
    (hsha : r.sha256 = host.sha256Of r.content) :
    ∃ version, t.read path = .ok version ∧ OneVersion host r version := by
  unfold PlatformRepo.readBytes at hbytes
  cases hread : t.read path with
  | error e => rw [hread] at hbytes; cases hbytes
  | ok version =>
    have hlength : r.sizeBytes = version.length := by
      rw [statSize_of_read hread] at hsize
      exact (Except.ok.inj hsize).symm
    simp only [hread, Except.ok.injEq] at hbytes
    refine ⟨version, rfl, ?_, hsha, ?_, hlength⟩
    · split at hbytes <;> simp_all
    · split at hbytes <;> simp_all

/-! ### Runs -/

/-- What is known of a reader that has read: in some tree that was passed by, the file had these bytes,
and the size it has now. -/
def Backed (host : Host) (seen : List (FileTree Bytes)) (t : FileTree Bytes) : Phase → Prop
  | .sizing path _ content truncated => ∃ v ∈ seen,
    PlatformRepo.readBytes v path = .ok (content, truncated) ∧
      PlatformRepo.statSize v path = PlatformRepo.statSize t path
  | .answered path r => ∃ v ∈ seen, PlatformRepo.readBytes v path = .ok (r.content, r.truncated) ∧
    PlatformRepo.statSize v path = .ok r.sizeBytes ∧ r.sha256 = host.sha256Of r.content
  | _ => True

variable {seen : List (FileTree Bytes)} {phase : Phase}

theorem Backed.mono {more : List (FileTree Bytes)} (h : Backed host seen t phase) :
    Backed host (seen ++ more) t phase := by
  cases phase with
  | sizing path rel content truncated =>
    obtain ⟨v, hv, h⟩ := h
    exact ⟨v, List.mem_append_left _ hv, h⟩
  | answered path r =>
    obtain ⟨v, hv, h⟩ := h
    exact ⟨v, List.mem_append_left _ hv, h⟩
  | _ => trivial

/-- What is done to the tree does not matter once the reply is there, and before that as long as the size
of the file stays. -/
theorem Backed.of_size {t' : FileTree Bytes} (h : Backed host seen t phase)
    (hsize : ∀ path rel content truncated, phase = .sizing path rel content truncated →
      PlatformRepo.statSize t' path = PlatformRepo.statSize t path) : Backed host seen t' phase := by
  cases phase with
  | sizing path rel content truncated =>
    obtain ⟨v, hv, hbytes, h⟩ := h
    exact ⟨v, hv, hbytes, h.trans (hsize _ _ _ _ rfl).symm⟩
  | answered path r => exact h
  | _ => trivial

/-- A reader learns what is true of the tree it looks at. -/
theorem Backed.look (mtime : Path → PlatformRepo.Mtime) (hseen : t ∈ seen) (h : Backed host seen t phase) :
    Backed host seen t (look ctx { host with mtime } raw t phase) := by
  cases phase with
  | reading path rel =>
    cases hbytes : PlatformRepo.readBytes t path with
    | error e =>
      have hlook : ReadRun.look ctx { host with mtime } raw t (.reading path rel) = .refused (WriteRun.caught e) := by
        simp [ReadRun.look, hbytes]
      rw [hlook]
      trivial
    | ok read =>
      have hlook : ReadRun.look ctx { host with mtime } raw t (.reading path rel) =
          .sizing path rel read.1 read.2 := by
        simp [ReadRun.look, hbytes]
      rw [hlook]
      exact ⟨t, hseen, hbytes, rfl⟩
  | sizing path rel content truncated =>
    obtain ⟨v, hv, hbytes, hsize⟩ := h
    cases hstat : PlatformRepo.statSize t path with
    | error e =>
      have hlook : ReadRun.look ctx { host with mtime } raw t (.sizing path rel content truncated) =
          .refused (WriteRun.caught e) := by
        simp [ReadRun.look, hstat]
      rw [hlook]
      trivial
    | ok size =>
      simp only [ReadRun.look, hstat]
      split
      · trivial
      · rename_i r hr
        rw [PlatformHandlers.dated_eq_ok hr]
        exact ⟨v, hv, hbytes, hsize.trans hstat, rfl⟩
  | answered path r => exact h
  | refused outcome => trivial
  | arrived | rooting | placing | checking | relating | rerooting =>
    unfold ReadRun.look
    repeat' split
    all_goals trivial

variable [DecidableEq ι] [DecidableEq κ] {s s' : State ι κ}

theorem backed_step (hstep : Critical.Step (program ctx host writes reads) s s')
    (hsize : Undisturbed s s') (hseen : s.shared ∈ seen) {k : κ} {phase phase' : Phase}
    (hphase : s.locals (.inr k) = .inr phase) (hphase' : s'.locals (.inr k) = .inr phase')
    (h : Backed host seen s.shared phase) : Backed host seen s'.shared phase' := by
  cases hstep with
  | @roam i l houtside hroam =>
    dsimp only at hphase' ⊢
    by_cases hi : .inr k = i
    · subst hi
      rw [Function.update_self] at hphase'
      rw [hphase, hphase'] at hroam
      obtain ⟨mtime, rfl⟩ : ∃ mtime, phase' = look ctx { host with mtime } (reads k) s.shared phase := hroam
      exact h.look mtime hseen
    · rw [Function.update_of_ne hi, hphase] at hphase'
      cases hphase'
      exact h
  | enter =>
    cases hphase.symm.trans hphase'
    exact h
  | work =>
    cases hphase.symm.trans hphase'
    refine h.of_size fun path rel content truncated heq => ?_
    exact hsize k path rel content truncated (heq ▸ hphase)
  | @leave holder l hholder hleave =>
    dsimp only at hphase' ⊢
    by_cases hi : .inr k = holder.thread
    · rw [← hi] at hleave
      exact hleave.elim
    · rw [Function.update_of_ne hi, hphase] at hphase'
      cases hphase'
      exact h

theorem reader_step (hstep : Critical.Step (program ctx host writes reads) s s') {k : κ}
    {phase : Phase} (hphase : s.locals (.inr k) = .inr phase) :
    ∃ phase', s'.locals (.inr k) = .inr phase' := by
  cases hstep with
  | @roam i l houtside hroam =>
    dsimp only
    by_cases hi : .inr k = i
    · subst hi
      rw [hphase] at hroam
      cases l with
      | inl l => exact hroam.elim
      | inr phase' => exact ⟨phase', Function.update_self ..⟩
    · exact ⟨phase, by rw [Function.update_of_ne hi, hphase]⟩
  | enter => exact ⟨phase, hphase⟩
  | work => exact ⟨phase, hphase⟩
  | @leave holder l hholder hleave =>
    dsimp only
    by_cases hi : .inr k = holder.thread
    · rw [← hi] at hleave
      exact hleave.elim
    · exact ⟨phase, by rw [Function.update_of_ne hi, hphase]⟩

/-- A run in which no size changes between a read and the question for it. -/
abbrev UndisturbedRun (ctx : PlatformContext) (host : Host) (writes : ι → Bytes) (reads : κ → Bytes)
    (t₀ : FileTree Bytes) : List (FileTree Bytes) → State ι κ → Prop :=
  Critical.Passing
    (fun s s' => Critical.Step (program ctx host writes reads) s s' ∧ Undisturbed s s')
    Critical.State.shared (start t₀)

theorem backed (h : UndisturbedRun ctx host writes reads t₀ seen s) (k : κ) :
    ∃ phase, s.locals (.inr k) = .inr phase ∧ Backed host seen s.shared phase := by
  refine h.keeps (I := fun seen s =>
    ∃ phase, s.locals (.inr k) = .inr phase ∧ Backed host seen s.shared phase) ?_ ?_
  · exact ⟨.arrived, rfl, trivial⟩
  · intro seen s s' hseen hbacked hstep
    obtain ⟨phase, hphase, hbacked⟩ := hbacked
    obtain ⟨phase', hphase'⟩ := reader_step hstep.1 hphase
    exact ⟨phase', hphase', (backed_step hstep.1 hstep.2 hseen hphase hphase' hbacked).mono⟩

/-- **Every reply describes one version** of the file, one that was there at some time of the run. -/
theorem oneVersion_of_answered (h : UndisturbedRun ctx host writes reads t₀ seen s) {k : κ}
    {r : ReadFileResponse} (hanswered : s.locals (.inr k) = .inr (.answered path r)) :
    ∃ v ∈ seen, ∃ version, v.read path = .ok version ∧ OneVersion host r version := by
  obtain ⟨phase, hphase, hbacked⟩ := backed h k
  cases hphase.symm.trans hanswered
  obtain ⟨v, hv, hbytes, hsize, hsha⟩ := hbacked
  exact ⟨v, hv, oneVersion_of_tree hbytes hsize hsha⟩

omit [DecidableEq ι] [DecidableEq κ] in
/-- A step that leaves the tree alone disturbs nobody. -/
theorem undisturbed_of_shared {s s' : State ι κ} (h : s'.shared = s.shared) : Undisturbed s s' := by
  intro k path rel content truncated _
  rw [h]

/-! ### A read that nothing comes between -/

theorem looks_related : Looks (look ctx host raw t) (.relating path (.start path))
    (match PlatformPaths.relativeToRoot t ctx.root path with
    | .error e => .refused (WriteRun.caught e)
    | .ok rel => .reading path rel) := by
  have hrelating : Looks (look ctx host raw t) (.relating path (.start path))
      (.rerooting path (t.realpath path) (.start ctx.root)) :=
    WriteRun.follows_links (P := Phase) (F := .relating path)
      (G := fun p => .rerooting path p (.start ctx.root)) (fun _ => rfl) path
  apply hrelating.trans
  exact WriteRun.follows_links (P := Phase) (F := .rerooting path (t.realpath path))
    (G := fun p =>
      match PlatformPaths.relativeTo p (t.realpath path) with
      | .error e => .refused (WriteRun.caught e)
      | .ok rel => .reading path rel)
    (fun _ => rfl) ctx.root

/-- Where a path leads to, up to the file. -/
def resolved (ctx : PlatformContext) (t : FileTree Bytes) (relative : String) : Phase :=
  match PlatformPaths.resolve t ctx.root relative true with
  | .error e => .refused (WriteRun.caught e)
  | .ok path =>
    match PlatformPaths.relativeToRoot t ctx.root path with
    | .error e => .refused (WriteRun.caught e)
    | .ok rel => .reading path rel

/-- What comes of the candidate. -/
def placed (rootReal candidate : Path) : Phase :=
  match PlatformPaths.checkPlace rootReal candidate with
  | .error e => .refused (WriteRun.caught e)
  | .ok _ => .checking candidate

theorem looks_rooted {relative : String} {parts : List String}
    (hshape : PlatformPaths.checkShape relative = .ok parts) :
    Looks (look ctx host raw t) (.rooting parts (.start ctx.root)) (resolved ctx t relative) := by
  have hrooting : Looks (look ctx host raw t) (.rooting parts (.start ctx.root))
      (.placing (t.realpath ctx.root) (.start (t.realpath ctx.root ++ parts))) :=
    WriteRun.follows_links (P := Phase) (F := .rooting parts)
      (G := fun p => .placing p (.start (p ++ parts))) (fun _ => rfl) ctx.root
  have hplacing : Looks (look ctx host raw t)
      (.placing (t.realpath ctx.root) (.start (t.realpath ctx.root ++ parts)))
      (placed (t.realpath ctx.root) (t.realpath (t.realpath ctx.root ++ parts))) :=
    WriteRun.follows_links (P := Phase) (F := .placing (t.realpath ctx.root))
      (G := placed (t.realpath ctx.root)) (fun _ => rfl) (t.realpath ctx.root ++ parts)
  have hchecking := hrooting.trans hplacing
  unfold placed at hchecking
  unfold resolved
  cases hplace : PlatformPaths.checkPlace (t.realpath ctx.root)
      (t.realpath (t.realpath ctx.root ++ parts)) with
  | error e =>
    have hresolve : PlatformPaths.resolve t ctx.root relative true = .error e := by
      simp [PlatformPaths.resolve, hshape, hplace, bind, Except.bind]
    rw [hplace] at hchecking
    rw [hresolve]
    exact hchecking
  | ok _ =>
    rw [hplace] at hchecking
    cases hfile : PlatformPaths.checkFile t (t.realpath (t.realpath ctx.root ++ parts)) true with
    | error e =>
      have hresolve : PlatformPaths.resolve t ctx.root relative true = .error e := by
        simp [PlatformPaths.resolve, hshape, hplace, hfile, bind, Except.bind]
      rw [hresolve]
      exact hchecking.trans (looks_once (by simp [look, hfile]))
    | ok _ =>
      have hresolve : PlatformPaths.resolve t ctx.root relative true =
          .ok (t.realpath (t.realpath ctx.root ++ parts)) := by
        simp [PlatformPaths.resolve, hshape, hplace, hfile, bind, Except.bind, pure, Except.pure]
      rw [hresolve]
      refine (hchecking.trans (looks_once ?_)).trans looks_related
      simp [look, hfile]

/-- Where a request gets to before the file is read. -/
def found (ctx : PlatformContext) (host : Host) (raw : Bytes) (t : FileTree Bytes) : Phase :=
  match host.pb.readFileRequest raw with
  | .error exc => .refused (.error (.other exc))
  | .ok request => resolved ctx t request.path

theorem looks_found : Looks (look ctx host raw t) .arrived (found ctx host raw t) := by
  unfold found
  cases hrequest : host.pb.readFileRequest raw with
  | error exc => exact looks_once (by simp [look, hrequest])
  | ok request =>
    dsimp only
    cases hshape : PlatformPaths.checkShape request.path with
    | error e =>
      have hresolve : PlatformPaths.resolve t ctx.root request.path true = .error e := by
        simp [PlatformPaths.resolve, hshape, bind, Except.bind]
      unfold resolved
      rw [hresolve]
      exact looks_once (by simp [look, hrequest, hshape])
    | ok parts =>
      refine Relation.ReflTransGen.trans (looks_once ?_) (looks_rooted hshape)
      simp [look, hrequest, hshape]

/-- What is made of the file. -/
def fetched (ctx : PlatformContext) (host : Host) (raw : Bytes) (t : FileTree Bytes) : Phase → Phase
  | .reading path rel =>
    match PlatformRepo.readBytes t path with
    | .error e => .refused (WriteRun.caught e)
    | .ok (content, truncated) => look ctx host raw t (.sizing path rel content truncated)
  | phase => phase

theorem looks_fetched (phase : Phase) : Looks (look ctx host raw t) phase (fetched ctx host raw t phase) := by
  cases phase with
  | reading path rel =>
    unfold fetched
    cases hbytes : PlatformRepo.readBytes t path with
    | error e => exact looks_once (by simp [look, hbytes])
    | ok read =>
      have hread : Looks (look ctx host raw t) (.reading path rel) (.sizing path rel read.1 read.2) :=
        looks_once (by simp [look, hbytes])
      refine hread.trans (looks_once ?_)
      simp [hbytes]
  | _ => exact .refl

/-- **A read that nothing comes between**, step by step. -/
theorem looks_alone :
    Looks (look ctx host raw t) .arrived (fetched ctx host raw t (found ctx host raw t)) :=
  looks_found.trans (looks_fetched _)

/-- The times may be those of the host. -/
theorem roams_of_looks {phase phase' : Phase} (h : Looks (look ctx host raw t) phase phase') :
    ReflTransGen (fun p p' => ∃ mtime, p' = look ctx { host with mtime } raw t p) phase phase' :=
  h.lift id fun _ _ hlook => ⟨host.mtime, hlook⟩

/-- What comes of a request. -/
def Phase.outcome : Phase → Except Exn PlatformReply
  | .answered _ response => .ok (.ok (.readFile response))
  | .refused outcome => outcome
  | _ => .error (.other "still on its way")

theorem outcome_resolved (text : String) : (fetched ctx host raw t (resolved ctx t text)).outcome =
    match PlatformHandlers.readReply ctx host t text with
    | .error e => WriteRun.caught e
    | .ok response => .ok (.ok (.readFile response)) := by
  unfold resolved PlatformHandlers.readReply PlatformHandlers.contentsAt
  cases hpath : PlatformPaths.resolve t ctx.root text true with
  | error e => rfl
  | ok path =>
    cases hrel : PlatformPaths.relativeToRoot t ctx.root path with
    | error e => simp [hrel, fetched, bind, Except.bind, Phase.outcome]
    | ok rel =>
      cases hbytes : PlatformRepo.readBytes t path with
      | error e => simp [hrel, hbytes, fetched, bind, Except.bind, Phase.outcome]
      | ok read =>
        cases hsize : PlatformRepo.statSize t path with
        | error e => simp [hrel, hbytes, hsize, fetched, look, bind, Except.bind, Phase.outcome]
        | ok size =>
          simp only [hrel, hbytes, hsize, fetched, look, bind, Except.bind, pure, Except.pure]
          split <;> simp [*, Phase.outcome]

/-- **The handler in one go.** -/
theorem build_eq_alone (replies : List PlatformReply) :
    PlatformHandlers.build ctx host .readFile raw ⟨t, replies⟩ =
      WriteRun.told replies ((fetched ctx host raw t (found ctx host raw t)).outcome, t) := by
  show PlatformHandlers.guarded (PlatformHandlers.handleReadFile ctx host) raw ⟨t, replies⟩ = _
  rw [WriteRun.guarded_eq, found, PlatformHandlers.handleReadFile]
  cases hrequest : host.pb.readFileRequest raw with
  | error exc => rfl
  | ok request =>
    rw [run_bind_ok (PlatformHandlers.decode_eq_ok.mpr ⟨rfl, rfl⟩)]
    dsimp only
    rw [outcome_resolved]
    cases hc : PlatformHandlers.readReply ctx host t request.path with
    | error e =>
      have hread : PlatformHandlers.reading (fun t => PlatformHandlers.readReply ctx host t request.path)
          ⟨t, replies⟩ = .error e ⟨t, replies⟩ := by
        simp [PlatformHandlers.reading, hc]
      rw [run_bind_error hread]
    | ok response =>
      rw [run_bind_ok (PlatformHandlers.reading_eq_ok.mpr ⟨hc, rfl⟩)]
      rfl

/-! ### A save in between -/

/-- Every reply in every run describes a version that was there at some time of the run. -/
def DescribesOneVersion (ctx : PlatformContext) (host : Host) (writes : ι → Bytes) (reads : κ → Bytes)
    (t₀ : FileTree Bytes) : Prop :=
  ∀ seen s, Critical.Passing (Critical.Step (program ctx host writes reads)) Critical.State.shared
      (start t₀) seen s →
    ∀ k path r, s.locals (.inr k) = .inr (.answered path r) →
      ∃ v ∈ seen, ∃ version, v.read path = .ok version ∧ OneVersion host r version

end KeelsonDocker.ReadRun

namespace KeelsonDocker.ReadRun.Overwritten

open FileSystem WriteRun.Edit
open WriteRun (looks_once Looks)

/-- A reader of the note, and a save that makes it longer. -/
def longer : Host :=
  { WriteRun.Edit.host with
    pb := {
      listFilesRequest := fun _ => .error ""
      readFileRequest := fun _ => .ok { path := "notes.md" }
      writeFileRequest := fun _ => .ok { path := "notes.md", content := [110, 111], baseSha256 := "#o" } } }

/-- The bytes of the old version, the size of the new one. -/
def torn : ReadFileResponse where
  path := "notes.md"
  content := [111]
  sha256 := "#o"
  sizeBytes := 2
  writable := true
  truncated := false

def place : Path := ["srv", "notes.md"]

theorem looks_sizing : Looks (look ctx longer [] tree) .arrived (.sizing place "notes.md" [111] false) := by
  have hfound : found ctx longer [] tree = .reading place "notes.md" := rfl
  exact (hfound ▸ looks_found).trans (looks_once rfl)

theorem look_torn :
    look ctx longer [] (WriteRun.served ctx longer [] tree).2 (.sizing place "notes.md" [111] false) =
      .answered place torn := by
  rfl

/-- No one version has both. -/
theorem not_oneVersion_torn (version : Bytes) : ¬ OneVersion longer torn version := by
  intro h
  have hsize : 2 = version.length := h.size
  rcases h.content with hcontent | hcontent
  · have hlength := congrArg List.length hcontent
    rw [← hsize] at hlength
    cases hlength
  · have hlength := congrArg List.length hcontent
    rw [List.length_take, ← hsize] at hlength
    cases hlength

theorem reached_torn : ∃ s : State Unit Unit,
    Critical.Reached (program ctx longer (fun _ => []) fun _ => []) (start tree) s ∧
      s.locals (.inr ()) = .inr (.answered place torn) := by
  have hstart : Critical.Reached (program ctx longer (fun _ : Unit => []) fun _ : Unit => []) (start tree)
      ((WriteRun.start tree).beside fun _ => .arrived) := .refl
  have hread := hstart.looks_beside (k := ()) (roams_of_looks looks_sizing)
  have hidle : Critical.Reached (WriteRun.program ctx longer fun _ : Unit => []) (WriteRun.start tree)
      (WriteRun.start tree) := .refl
  obtain ⟨s, hsave, -, hshared, -⟩ := WriteRun.reached_served hidle rfl (i := ()) rfl
  have hsaved := hread.trans (hsave.beside _)
  have hanswer : Looks (look ctx longer [] s.shared)
      (Function.update (fun _ : Unit => Phase.arrived) () (.sizing place "notes.md" [111] false) ())
      (.answered place torn) := by
    rw [Function.update_self, hshared]
    exact looks_once look_torn
  exact ⟨_, hsaved.looks_beside (k := ()) (roams_of_looks hanswer), by simp [Critical.State.beside]⟩

theorem not_describesOneVersion :
    ¬ DescribesOneVersion ctx longer (fun _ : Unit => []) (fun _ : Unit => []) tree := by
  intro h
  obtain ⟨s, hs, hanswered⟩ := reached_torn
  obtain ⟨seen, hpassing⟩ := hs.passing Critical.State.shared
  obtain ⟨_, _, version, _, hone⟩ := h seen s hpassing () place torn hanswered
  exact not_oneVersion_torn version hone

/-- The read as nobody comes between. -/
def whole : ReadFileResponse := { torn with sizeBytes := 1 }

theorem oneVersion_whole : ∃ seen, ∃ s : State Unit Unit,
    UndisturbedRun ctx longer (fun _ => []) (fun _ => []) tree seen s ∧
      s.locals (.inr ()) = .inr (.answered place whole) ∧
      ∃ v ∈ seen, ∃ version, v.read place = .ok version ∧ OneVersion longer whole version := by
  have hread : Looks (look ctx longer [] tree) .arrived (.answered place whole) :=
    looks_sizing.trans (looks_once rfl)
  have hroam : Relation.ReflTransGen
      ((program ctx longer (fun _ : Unit => []) fun _ : Unit => []).roam (.inr ()) tree)
      (.inr .arrived) (.inr (.answered place whole)) :=
    (roams_of_looks hread).lift Sum.inr fun _ _ hl => hl
  have hstart : UndisturbedRun ctx longer (fun _ : Unit => []) (fun _ : Unit => []) tree [tree]
      (start tree) := .refl
  obtain ⟨seen, hseen⟩ := hstart.roams
    (fun locals l hl => ⟨.roam nofun hl, undisturbed_of_shared rfl⟩) hroam
  have hanswered : Function.update (start tree : State Unit Unit).locals (.inr ())
      (.inr (.answered place whole)) (.inr ()) = .inr (.answered place whole) :=
    Function.update_self ..
  exact ⟨seen, _, hseen, hanswered, oneVersion_of_answered (k := ()) hseen hanswered⟩

end KeelsonDocker.ReadRun.Overwritten
