import KeelsonDocker.PlatformHandlers

/-!
# A save that is on disk

After `atomic_write`, `handle_write_file` asks `git` for the state of the tree and catches a `RepoError`.
So the save is reported exactly when nothing else is raised (`told_iff_harmless`): a `git` that cannot be
executed, output that is no UTF-8, counts that are no `uint32`, a last fetch that `datetime` has no year
for, and a path that is no text turn it into an internal error.
-/

namespace KeelsonDocker

open Effect FileSystem

namespace PlatformRepo

variable {spawn : List String → Spawned} {args : List String} {check : Bool} {fetchHead : Mtime}

/-- What `handle_write_file` catches. -/
def IsRepoError (e : Exn) : Prop := ∃ code message, e = .repo code message

@[simp] theorem isRepoError_repo (code : Code) (message : String) : IsRepoError (.repo code message) :=
  ⟨code, message, rfl⟩

/-- A query raises nothing but what is caught, and `rest` holds of its answer if it has one. -/
def Goes (spawn : List String → Spawned) (args : List String) (check : Bool)
    (rest : Completed → Prop) : Prop :=
  match spawn args with
  | .notFound | .timedOut => True
  | .refused _ | .homeless => False
  | .exited returncode stdout stderr =>
    ∃ out err, decodeText stdout = some out ∧ decodeText stderr = some err ∧
      (check = true ∧ returncode ≠ 0 ∨ rest ⟨returncode, out, err⟩)

/-- Two words are numbers, of which `rest` holds. -/
def Numbers (stdout : String) (rest : Int → Int → Prop) : Prop :=
  match splitWords stdout with
  | [behind, ahead] => ∃ b a, pyInt behind = some b ∧ pyInt ahead = some a ∧ rest b a
  | _ => rest 0 0

/-- A time of the years 1 to 9999, or one whose year `gmtime` cannot tell, an `OSError` that is caught. -/
def Dated (mtime : Mtime) : Prop :=
  ∀ micros, mtime = .ok micros →
    InTimeT (micros / 1000000) ∧ (InGmtime (micros / 1000000) → InYears (micros / 1000000))

/-- The last query, and what is reported if it is answered: the counts and the time of the last fetch. -/
def Finishes (spawn : List String → Spawned) (fetchHead : Mtime) (behind ahead : Int) : Prop :=
  Goes spawn ["status", "--porcelain", "--untracked-files=all"] true fun _ =>
    (0 ≤ ahead ∧ ahead < 2 ^ 32) ∧ (0 ≤ behind ∧ behind < 2 ^ 32) ∧ Dated fetchHead

/-- The queries in the order they are made. -/
def Harmless (spawn : List String → Spawned) (fetchHead : Mtime) : Prop :=
  Goes spawn ["rev-parse", "HEAD"] true fun _ =>
  Goes spawn ["symbolic-ref", "--quiet", "--short", "HEAD"] false fun branch =>
  Goes spawn ["remote", "get-url", "origin"] false fun _ =>
  if branch.returncode ≠ 0 then Finishes spawn fetchHead 0 0
  else
    Goes spawn ["rev-list", "--left-right", "--count", "@\x7bupstream\x7d...HEAD"] false fun counts =>
    if counts.returncode = 0 then Numbers counts.stdout (Finishes spawn fetchHead)
    else Finishes spawn fetchHead 0 0

/-! ### The queries one by one -/

theorem wp_runGit {Q : Completed → Prop} :
    wp IsRepoError (runGit (spawning spawn) args check) Q ↔ Goes spawn args check Q := by
  unfold runGit Goes spawning
  cases spawn args with
  | notFound => simp [Spawned.outcome]
  | timedOut => simp [Spawned.outcome]
  | refused text => simp [Spawned.outcome, IsRepoError]
  | homeless => simp [Spawned.outcome, IsRepoError]
  | exited returncode stdout stderr =>
    cases hout : decodeText stdout with
    | none => simp [Spawned.outcome, hout, IsRepoError]
    | some out =>
      cases herr : decodeText stderr with
      | none => simp [Spawned.outcome, hout, herr, IsRepoError]
      | some err =>
        simp only [Spawned.outcome, hout, herr, wp_ite]
        split <;> simp_all

theorem wp_divergence {stdout : String} {rest : Int × Int → Prop} :
    wp IsRepoError (divergence stdout) rest ↔
      Numbers stdout fun behind ahead => rest (behind, ahead) := by
  unfold Numbers divergence
  generalize splitWords stdout = words
  match words with
  | [behind, ahead] =>
    cases hbehind : pyInt behind with
    | none => simp [IsRepoError, hbehind]
    | some b => cases hahead : pyInt ahead <;> simp [IsRepoError, hbehind, hahead]
  | [] | [_] | _ :: _ :: _ :: _ => exact wp_ok

theorem wp_uint32 {n : Int} {rest : Int → Prop} :
    wp IsRepoError (uint32 n) rest ↔ (0 ≤ n ∧ n < 2 ^ 32) ∧ rest n := by
  unfold uint32 assignInt
  rw [wp_ite]
  split <;> simp_all [IsRepoError]

theorem wp_lastFetchAt :
    wp IsRepoError (lastFetchAt fetchHead) (fun _ => True) ↔ Dated fetchHead := by
  unfold lastFetchAt modifiedAt Dated
  cases fetchHead with
  | error text => exact iff_of_true trivial nofun
  | ok micros =>
    simp only [fromTimestamp, Except.ok.injEq, forall_eq']
    by_cases htimeT : InTimeT (micros / 1000000)
    · by_cases hgmtime : InGmtime (micros / 1000000)
      · by_cases hyears : InYears (micros / 1000000)
        · simp [htimeT, hgmtime, hyears]
        · simp [htimeT, hgmtime, hyears, IsRepoError]
      · simp [htimeT, hgmtime]
    · simp [htimeT, IsRepoError]

end PlatformRepo

/-- The host, with these runs of `git`. -/
def Host.querying (host : Host) (spawn : List String → PlatformRepo.Spawned) : Host :=
  { host with git := PlatformRepo.spawning spawn }

/-- What is not caught is raised exactly when some query is not harmless. -/
theorem PlatformRepo.wp_fillRepoStatus {host : Host} {spawn : List String → Spawned} :
    wp IsRepoError (PlatformHandlers.fillRepoStatus (host.querying spawn)) (fun _ => True) ↔
      Harmless spawn host.fetchHead := by
  unfold PlatformHandlers.fillRepoStatus readState Harmless Host.querying
  simp only [wp_bind, wp_runGit, wp_ite, wp_pure, wp_uint32, wp_divergence, decide_eq_true_eq,
    wp_lastFetchAt]
  rfl

namespace PlatformHandlers

open PlatformRepo

section

variable {ctx : PlatformContext} {host : Host} {spawn : List String → Spawned} {raw : Bytes}
  {w : PlatformWorld} {rel : String} {content : Bytes} {t : FileTree Bytes}

/-- What is said of a save: its checksum, and the state of the tree if that could be read. -/
def saveReply (host : Host) (rel : String) (content : Bytes) : WriteFileResponse where
  path := rel
  sha256 := host.sha256Of content
  pushed := false
  repo := (fillRepoStatus host).toOption

theorem written_iff (rel : String) (content : Bytes) :
    written (host.querying spawn) rel content = .ok (saveReply (host.querying spawn) rel content) ↔
      host.pb.takesText rel = true ∧ Harmless spawn host.fetchHead := by
  rw [← wp_fillRepoStatus]
  unfold written saveReply assignText
  have hpb : (host.querying spawn).pb = host.pb := rfl
  rw [hpb]
  cases htext : host.pb.takesText rel with
  | false => simp [bind, Except.bind]
  | true =>
    cases hfill : fillRepoStatus (host.querying spawn) with
    | ok status => simp [Except.toOption, bind, Except.bind, pure, Except.pure]
    | error e => cases e <;> simp [IsRepoError, Except.toOption, bind, Except.bind, pure, Except.pure]

/-- A request whose file has been put in place, leaving this tree. -/
def Lands (ctx : PlatformContext) (host : Host) (raw : Bytes) (w : PlatformWorld) (rel : String)
    (content : Bytes) (t : FileTree Bytes) : Prop :=
  ∃ request path decision, host.pb.writeFileRequest raw = .ok request ∧ request.content = content ∧
    toWrite ctx w.tree request.path = .ok (path, rel, decision) ∧ decision.allowed = true ∧
    PlatformWrite.saveFile host.sha256Of
      { path, content, baseSha256 := request.baseSha256 } host.chances w.tree = (.ok (), t)

theorem handleWriteFile_of_lands (h : Lands ctx host raw w rel content t) :
    handleWriteFile ctx host raw w =
      match written host rel content with
      | .ok response => .ok () { tree := t, replies := w.replies ++ [.ok (.writeFile response)] }
      | .error e => .error e { w with tree := t } := by
  obtain ⟨request, path, decision, hreq, rfl, hto, hallowed, hsave⟩ := h
  have hdecode : decode (host.pb.writeFileRequest raw) w = .ok request w := by
    rw [hreq]
    rfl
  have hread : reading (fun t => toWrite ctx t request.path) w = .ok (path, rel, decision) w := by
    simp only [reading, hto]
  have hsaving : saving host { path, content := request.content, baseSha256 := request.baseSha256 } w =
      .ok () { w with tree := t } := by
    simp only [saving, hsave]
  refine (run_bind_ok hdecode).trans ((run_bind_ok hread).trans ?_)
  simp only [hallowed, Bool.not_true, Bool.false_eq_true, if_false]
  apply (run_bind_ok hsaving).trans
  cases written host rel request.content <;> rfl

/-- What the caller is told: that the file is saved, whatever became of the queries. -/
def Told (ctx : PlatformContext) (host : Host) (raw : Bytes) (w : PlatformWorld) (rel : String)
    (content : Bytes) (t : FileTree Bytes) : Prop :=
  build ctx host .writeFile raw w =
    .ok () { tree := t, replies := w.replies ++ [.ok (.writeFile (saveReply host rel content))] }

theorem build_writeFile : build ctx host .writeFile raw = guarded (handleWriteFile ctx host) raw := rfl

theorem told_iff_written (h : Lands ctx host raw w rel content t) :
    Told ctx host raw w rel content t ↔
      written host rel content = .ok (saveReply host rel content) := by
  have hhandle := handleWriteFile_of_lands h
  rw [Told, build_writeFile, guarded]
  cases hwritten : written host rel content with
  | ok response =>
    rw [hwritten] at hhandle
    rw [run_tryCatch_ok hhandle]
    simp
  | error e =>
    rw [hwritten] at hhandle
    rw [run_tryCatch_error hhandle]
    cases e <;> simp [reply]

/-- **A save that is on disk is reported exactly when** its path is a text and every query is harmless. -/
theorem told_iff_harmless (h : Lands ctx (host.querying spawn) raw w rel content t) :
    Told ctx (host.querying spawn) raw w rel content t ↔
      host.pb.takesText rel = true ∧ Harmless spawn host.fetchHead :=
  (told_iff_written h).trans (written_iff rel content)

end

/-! ### `git` that cannot be executed -/

/-- Every save that is on disk is reported. -/
def ReportsSaves : Prop :=
  ∀ (ctx : PlatformContext) (host : Host) spawn raw w rel content t,
    Lands ctx (host.querying spawn) raw w rel content t →
      Told ctx (host.querying spawn) raw w rel content t

namespace NotExecutable

def ctx : PlatformContext where
  root := ["srv"]
  guard := { writeEnabled := true, writeGlobs := ["*.md"] }

/-- A save of a new file. -/
def host : Host where
  git := fun _ => .notInstalled
  sha256Of := fun _ => "8f43"
  pb := {
    listFilesRequest := fun _ => .error ""
    readFileRequest := fun _ => .error ""
    writeFileRequest := fun _ => .ok { path := "notes.md", content := [104, 105], baseSha256 := "" } }
  chances := fun _ => { random := "k3j9" }

def before : PlatformWorld where
  tree := .ofEntries [(["srv"], .dir)] (fun _ => none) (by decide) none_ne_noent

def spawn : List String → Spawned := fun _ => .refused "[Errno 13] Permission denied: 'git'"

/-- The tree with the file. -/
def saved : FileTree Bytes :=
  (PlatformWrite.saveFile host.sha256Of
    { path := ["srv", "notes.md"], content := [104, 105], baseSha256 := "" } host.chances before.tree).2

theorem lands (spawn : List String → Spawned) :
    Lands ctx (host.querying spawn) [] before "notes.md" [104, 105] saved := by
  have hsaved : (PlatformWrite.saveFile host.sha256Of
      { path := ["srv", "notes.md"], content := [104, 105], baseSha256 := "" } host.chances
      before.tree).1 = .ok () := by
    decide +kernel
  exact ⟨_, ["srv", "notes.md"], .ALLOWED, rfl, rfl, by decide +kernel, rfl, Prod.ext hsaved rfl⟩

theorem not_reportsSaves : ¬ ReportsSaves := by
  intro h
  have htold := (told_iff_written (lands spawn)).mp (h ctx host spawn [] before _ _ _ (lands spawn))
  exact ((written_iff _ _).mp htold).2

/-- `git` is not there at all. -/
theorem told_of_notFound :
    Told ctx (host.querying fun _ => .notFound) [] before "notes.md" [104, 105] saved :=
  (told_iff_harmless (lands _)).mpr ⟨rfl, trivial⟩

end NotExecutable

end PlatformHandlers

end KeelsonDocker
