import KeelsonDocker.PlatformHandlers

/-!
# What a refused save tells

What the jail and the guard say of a save rests on the request and on where the symbolic links lead
(`toWrite_eq`), so a refusal is the same whatever else is there (`refused_alike`).
-/

namespace KeelsonDocker.PlatformHandlers

open Effect FileSystem

section

variable {ctx : PlatformContext} {host : Host} {raw : Bytes} {t t' : FileTree Bytes}
  {replies : List PlatformReply} {r : PlatformReply}

/-- The reply by which the jail or the guard refuses a save. -/
def refusal (ctx : PlatformContext) (t : FileTree Bytes) (relative : String) : Option PlatformReply :=
  match toWrite ctx t relative with
  | .error (.path message) => some (.err message .invalidArgument)
  | .error _ => none
  | .ok (_, _, decision) => if decision.allowed then none else some (.err decision.reason decision.code)

/-- The request is refused, and this is said of it. -/
def RefusedWith (ctx : PlatformContext) (pb : PlatformProtobuf) (raw : Bytes) (t : FileTree Bytes)
    (r : PlatformReply) : Prop :=
  ∃ request, pb.writeFileRequest raw = .ok request ∧ refusal ctx t request.path = some r

/-- That is the one reply, and nothing is written. -/
theorem build_of_refused (h : RefusedWith ctx host.pb raw t r) (replies : List PlatformReply) :
    build ctx host .writeFile raw { tree := t, replies } =
      .ok () { tree := t, replies := replies ++ [r] } := by
  obtain ⟨request, hreq, hrefusal⟩ := h
  have hdecode (w : PlatformWorld) : decode (host.pb.writeFileRequest raw) w = .ok request w := by
    rw [hreq]
    rfl
  rw [refusal] at hrefusal
  change guarded (handleWriteFile ctx host) raw _ = _
  unfold guarded
  cases hto : toWrite ctx t request.path with
  | error e =>
    have hread : reading (fun t => toWrite ctx t request.path) { tree := t, replies } =
        .error e { tree := t, replies } := by
      simp only [reading, hto]
    have hhandle : handleWriteFile ctx host raw { tree := t, replies } = .error e { tree := t, replies } :=
      (run_bind_ok (hdecode _)).trans (run_bind_error hread)
    apply (run_tryCatch_error hhandle).trans
    rw [hto] at hrefusal
    cases e <;> cases hrefusal
    rfl
  | ok verdict =>
    obtain ⟨path, rel, decision⟩ := verdict
    have hread : reading (fun t => toWrite ctx t request.path) { tree := t, replies } =
        .ok (path, rel, decision) { tree := t, replies } := by
      simp only [reading, hto]
    rw [hto] at hrefusal
    dsimp only at hrefusal
    split at hrefusal
    · cases hrefusal
    · rename_i hallowed
      cases hrefusal
      refine run_tryCatch_ok ((run_bind_ok (hdecode _)).trans ((run_bind_ok hread).trans ?_))
      simp only [hallowed, Bool.not_false, if_true]
      rfl

theorem toWrite_eq (h : SameLinks t t') (relative : String) :
    toWrite ctx t relative = toWrite ctx t' relative := by
  have hresolve : PlatformPaths.resolve t ctx.root relative = PlatformPaths.resolve t' ctx.root relative := by
    simp only [PlatformPaths.resolve, h.realpath_eq, PlatformPaths.checkFile, Bool.false_eq_true, if_false]
  have hrel (path : Path) :
      PlatformPaths.relativeToRoot t ctx.root path = PlatformPaths.relativeToRoot t' ctx.root path := by
    simp only [PlatformPaths.relativeToRoot, h.realpath_eq]
  simp only [toWrite, hresolve, hrel]

/-- **Refusals do not reveal what exists**: with the same links, the same is said whichever files and
directories there are. -/
theorem refused_alike {host' : Host} (hpb : host'.pb = host.pb) (h : SameLinks t t')
    (hrefused : RefusedWith ctx host.pb raw t r) (replies : List PlatformReply) :
    build ctx host .writeFile raw { tree := t, replies } =
        .ok () { tree := t, replies := replies ++ [r] } ∧
      RefusedWith ctx host'.pb raw t' r ∧
      build ctx host' .writeFile raw { tree := t', replies } =
        .ok () { tree := t', replies := replies ++ [r] } := by
  have hrefused' : RefusedWith ctx host'.pb raw t' r := by
    obtain ⟨request, hreq, hrefusal⟩ := hrefused
    refine ⟨request, by rw [hpb, hreq], ?_⟩
    rw [refusal, ← toWrite_eq h]
    exact hrefusal
  exact ⟨build_of_refused hrefused replies, hrefused', build_of_refused hrefused' replies⟩

end

namespace LedOut

/-- A note that is a link out of the repository. -/
def bare : FileTree Bytes :=
  .ofEntries [(["srv"], .dir), (["srv", "notes.md"], .link true ["etc", "motd.md"])]
    (fun _ => none) (by decide) none_ne_noent

/-- The file is there, and a directory beside the note. -/
def furnished : FileTree Bytes :=
  .ofEntries
    [(["srv"], .dir), (["srv", "notes.md"], .link true ["etc", "motd.md"]), (["etc"], .dir),
      (["etc", "motd.md"], .file 0o644 [104, 105]), (["srv", "platforms"], .dir)]
    (fun _ => none) (by decide) none_ne_noent

theorem sameLinks : SameLinks bare furnished where
  links p a target := by
    simp only [bare, furnished, FileTree.ofEntries, List.lookup_cons, List.lookup_nil]
    repeat' split
    all_goals simp
  reached _ _ _ _ _ _ := rfl

def ctx : PlatformContext where
  root := ["srv"]
  guard := { writeEnabled := true, writeGlobs := ["*.md"] }

def host : Host where
  git := fun _ => .notInstalled
  sha256Of := fun _ => "8f43"
  pb := {
    listFilesRequest := fun _ => .error ""
    readFileRequest := fun _ => .error ""
    writeFileRequest := fun _ => .ok { path := "notes.md", content := [], baseSha256 := "" } }
  chances := fun _ => {}

def escapes : PlatformReply := .err "path escapes the repository root" .invalidArgument

theorem build_furnished : build ctx host .writeFile [] { tree := furnished } =
    .ok () { tree := furnished, replies := [escapes] } := by
  have hrefused : RefusedWith ctx host.pb [] bare escapes := ⟨_, rfl, by decide +kernel⟩
  exact (refused_alike rfl sameLinks hrefused []).2.2

end LedOut

end KeelsonDocker.PlatformHandlers
