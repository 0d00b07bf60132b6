import KeelsonDocker.Verify.MergedLogs
import KeelsonDocker.Verify.Replies

/-!
# The run of a log request

A log request is answered with lines exactly when the container is found, the daemon serves the streams
that are read and the effective tail fits its field (`mem_replies_logs`). `logReads` is what it asks the
daemon for on the way, and `logReads_spec` says how much that is.
-/

namespace KeelsonDocker

open Effect Tail

section

variable {σ : Type}

/-! ### What the daemon is asked for -/

/-- A read of a log: how many lines from the end (`none` for all of them), and since when. -/
def Call.logRead : Call → Option (Option Nat × Option Int)
  | logs _ _ _ tail since => some (tail, since)
  | _ => none

def World.logReads (w : World σ) : List (Option Nat × Option Int) := w.calls.filterMap Call.logRead

/-- The reads of a log request, one for each stream. -/
def logReads (ctx : Context σ) (raw : Bytes) (d : σ) (t : Int) : List (Option Nat × Option Int) :=
  (after (build ctx .logs raw) { daemon := d, timeNs := t }).logReads

/-- A stream is read: one is selected, or the container has a TTY, which merges both. -/
def readsLog (E : Engine σ) (name : String) (wantStdout wantStderr : Bool) (d : σ) : Bool :=
  (resolved E name d).any fun c =>
    match DockerBackend.flag c "Config" "Tty" with
    | .ok tty => tty || wantStdout || wantStderr
    | .error _ => false

@[simp] theorem World.asked_logReads (w : World σ) (c : Call) (d : σ) :
    (w.asked c d).logReads = w.logReads ++ c.logRead.toList := by
  cases h : c.logRead <;> simp [asked, logReads, h]

@[simp] theorem World.asked_replies (w : World σ) (c : Call) (d : σ) :
    (w.asked c d).replies = w.replies := rfl

theorem adds_logRead {c : Call} {f : σ → Except Exn α × σ} {w : World σ} :
    Adds World.logReads (request c f) w c.logRead.toList := by
  cases h : (f w.daemon).1 with
  | ok a => rw [Adds, after_ok (request_ok h), World.asked_logReads]
  | error e => rw [Adds, after_error (request_error h), World.asked_logReads]

namespace DockerBackend

variable {E : Engine σ} {name : String} {w : World σ} {c : Container} {tail : Option Nat}
  {since : Option Int}

/-- Both calls of a lookup are answered, and it goes on with the container. -/
theorem lookup_run (hc : resolved E name w.daemon = some c) :
    ∃ w', w'.replies = w.replies ∧ w'.logReads = w.logReads ∧ ∀ {α : Type} (f : Container → Proc σ α),
      (do client E; let c ← request (.get name) (E.get name); f c) w = f c w' := by
  unfold resolved at hc
  cases he : (E.fromEnv w.daemon).1 with
  | error e =>
    rw [he] at hc
    cases hc
  | ok u =>
    rw [he] at hc
    cases hg : (E.get name (E.fromEnv w.daemon).2).1 with
    | error e => simp [hg, Except.toOption] at hc
    | ok c' =>
      obtain rfl : c' = c := by simpa [hg, Except.toOption] using hc
      have hget := request_ok (w := w.asked .fromEnv (E.fromEnv w.daemon).2) (c := .get name) hg
      refine ⟨(w.asked .fromEnv (E.fromEnv w.daemon).2).asked (.get name)
        (E.get name (E.fromEnv w.daemon).2).2, rfl, ?_, fun f => ?_⟩
      · simp [Call.logRead]
      · exact (run_bind_ok (client_ok he)).trans (run_bind_ok hget)

/-- A lookup that fails reads nothing. -/
theorem lookup_fails (hc : resolved E name w.daemon = none) {α : Type} (f : Container → Proc σ α) :
    ∃ e w', (do client E; let c ← request (.get name) (E.get name); f c) w = .error e w' ∧
      w'.logReads = w.logReads := by
  unfold resolved at hc
  cases he : (E.fromEnv w.daemon).1 with
  | error e =>
    obtain ⟨e', he'⟩ := client_error he
    exact ⟨e', _, run_bind_error he', by simp [Call.logRead]⟩
  | ok u =>
    rw [he] at hc
    cases hg : (E.get name (E.fromEnv w.daemon).2).1 with
    | ok c' => simp [hg, Except.toOption] at hc
    | error e =>
      have hget := request_error (w := w.asked .fromEnv (E.fromEnv w.daemon).2) (c := .get name) hg
      refine ⟨e, _, (run_bind_ok (client_ok he)).trans (run_bind_error hget), ?_⟩
      simp [Call.logRead]

theorem adds_fetch {stdout stderr want : Bool} :
    Adds World.logReads (fetch E c stdout stderr want tail since) w
      (if want then [(tail, since)] else []) := by
  cases want with
  | true => exact adds_logRead
  | false => exact .pure []

/-- What the daemon is asked for as the tail: no positive number stands for all lines. -/
def asked (tail : Int) : Option Nat := if 0 < tail then some tail.toNat else none

/-- The two calls for a container without a TTY: the second is not made when the first one fails. -/
theorem logReads_streams (E : Engine σ) (c : Container) (tail : Option Nat) (since : Option Int)
    (wantStdout wantStderr : Bool) (w : World σ) :
    ∃ l, Adds World.logReads (do
        let out ← fetch E c true false wantStdout tail since
        let err ← fetch E c false true wantStderr tail since
        let snapshot ← ofExcept (snapshot c)
        return (out, err, false, snapshot)) w l ∧
      (∀ x ∈ l, x = (tail, since)) ∧ (l = [] ↔ (wantStdout || wantStderr) = false) := by
  have herr (out : Bytes) (w : World σ) : Adds World.logReads (do
      let err ← fetch E c false true wantStderr tail since
      let snapshot ← ofExcept (snapshot c)
      return (out, err, false, snapshot)) w (if wantStderr then [(tail, since)] else []) :=
    Adds.then_silent adds_fetch fun _ => .bind appends_ofExcept fun _ _ _ _ => .pure _
  cases wantStdout with
  | false =>
    refine ⟨_, .bind_ok (run_pure [] w) (.pure []) (herr [] w), ?_, ?_⟩ <;> cases wantStderr <;> simp
  | true =>
    have hout : Adds World.logReads (fetch E c true false true tail since) w [(tail, since)] :=
      adds_fetch
    cases h : fetch E c true false true tail since w with
    | error e w' => exact ⟨_, hout.bind_error h, by simp, by simp⟩
    | ok out w' =>
      refine ⟨_, hout.bind_ok h (herr out w'), ?_, by simp⟩
      cases wantStderr <;> simp

/-- Each stream is read with the tail and the `since` that the backend was given. -/
theorem logReads_logs (E : Engine σ) (name : String) (tail : Int) (since : Option Int)
    (wantStdout wantStderr : Bool) (w : World σ) :
    ∃ l, Adds World.logReads (logs E name tail since wantStdout wantStderr) w l ∧
      (∀ x ∈ l, x = (asked tail, since)) ∧
      (l = [] ↔ readsLog E name wantStdout wantStderr w.daemon = false) := by
  have htrans {x : Proc σ (Bytes × Bytes × Bool × ContainerSnapshot)}
      {l : List (Option Nat × Option Int)} (h : Adds World.logReads x w l) :
      Adds World.logReads (translating "read logs" name x) w l :=
    .tryCatch (fun e s => by cases e <;> rfl) h
  cases hc : resolved E name w.daemon with
  | none =>
    refine ⟨[], htrans ?_, by simp, by simp [readsLog, hc]⟩
    obtain ⟨e, w', hrun, hreads⟩ := lookup_fails hc _
    rw [Adds, after_error hrun, hreads, List.append_nil]
  | some c =>
    obtain ⟨w₁, -, hreads, hrun⟩ := lookup_run hc
    have hthen {f : Container → Proc σ (Bytes × Bytes × Bool × ContainerSnapshot)}
        {l : List (Option Nat × Option Int)} (h : Adds World.logReads (f c) w₁ l) :
        Adds World.logReads (do client E; let c ← request (.get name) (E.get name); f c) w l := by
      rw [Adds, after, hrun f, ← after, h, hreads]
    cases htty : flag c "Config" "Tty" with
    | error e =>
      refine ⟨[], htrans (hthen ?_), by simp, by simp [readsLog, hc, htty]⟩
      rw [htty]
      exact .bind_error (run_throw (Exn.py e) w₁) (.throw _)
    | ok tty =>
      have hx : ∀ x ∈ [(asked tail, since)], x = (asked tail, since) := by simp
      have hreads : readsLog E name wantStdout wantStderr w.daemon =
          (tty || wantStdout || wantStderr) := by simp [readsLog, hc, htty]
      rw [hreads]
      cases tty with
      | true =>
        refine ⟨_, htrans (hthen ?_), hx, by simp⟩
        rw [htty]
        apply Adds.bind_ok (run_pure true w₁) (.pure true)
        exact Adds.then_silent adds_fetch fun _ => .bind appends_ofExcept fun _ _ _ _ => .pure _
      | false =>
        obtain ⟨l, hl, hall, hnil⟩ := logReads_streams E c (asked tail) since wantStdout wantStderr w₁
        refine ⟨l, htrans (hthen ?_), hall, hnil⟩
        rw [htty]
        apply Adds.bind_ok (run_pure false w₁) (.pure false) hl

/-! ### What the backend returns -/

/-- What the daemon answers for a stream, and nothing for one that is not wanted. -/
def Fetched (E : Engine σ) (c : Container) (stdout stderr want : Bool) (tail : Option Nat)
    (since : Option Int) (bs : Bytes) : Prop :=
  if want then ∃ d, (E.logs c stdout stderr tail since d).1 = .ok bs else bs = []

theorem fetched_of_fetch {stdout stderr want : Bool} {bs : Bytes} {w' : World σ}
    (h : fetch E c stdout stderr want tail since w = .ok bs w') :
    Fetched E c stdout stderr want tail since bs := by
  cases want with
  | false =>
    cases h
    rfl
  | true =>
    cases hl : (E.logs c stdout stderr tail since w.daemon).1 with
    | error e => cases (request_error hl).symm.trans h
    | ok bs' =>
      cases (request_ok hl).symm.trans h
      exact ⟨w.daemon, hl⟩

/-- What `logs` returned, in terms of the daemon's answers. -/
structure Read (E : Engine σ) (c : Container) (tail : Option Nat) (since : Option Int)
    (wantStdout wantStderr : Bool) (out err : Bytes) (tty : Bool) (s : ContainerSnapshot) : Prop where
  flag_eq : flag c "Config" "Tty" = .ok tty
  snapshot_eq : snapshot c = .ok s
  merged : tty = true → Fetched E c true true true tail since out
  stdout : tty = false → Fetched E c true false wantStdout tail since out
  stderr : tty = false → Fetched E c false true wantStderr tail since err

theorem read_of_logs {tail : Int} {wantStdout wantStderr tty : Bool} {out err : Bytes}
    {s : ContainerSnapshot} {w' : World σ}
    (h : logs E name tail since wantStdout wantStderr w = .ok (out, err, tty, s) w') :
    ∃ c, resolved E name w.daemon = some c ∧
      Read E c (asked tail) since wantStdout wantStderr out err tty s := by
  have hbody := (run_tryCatch_eq_ok fun e s => by cases e <;> exact nofun).mp h
  cases hc : resolved E name w.daemon with
  | none =>
    obtain ⟨e, w₁, hrun, -⟩ := lookup_fails hc _
    cases hrun.symm.trans hbody
  | some c =>
    obtain ⟨w₁, -, -, hrun⟩ := lookup_run hc
    rw [hrun] at hbody
    cases hf : flag c "Config" "Tty" with
    | error e =>
      rw [hf] at hbody
      cases (run_bind_error (run_throw (Exn.py e) w₁)).symm.trans hbody
    | ok tty' =>
      rw [hf] at hbody
      replace hbody := (run_bind_ok (run_pure tty' w₁)).symm.trans hbody
      refine ⟨c, rfl, ?_⟩
      cases tty' with
      | true =>
        rw [if_pos rfl] at hbody
        obtain ⟨merged, w₃, hmerged, hbody⟩ := run_bind_eq_ok.mp hbody
        obtain ⟨s', w₄, hs, hbody⟩ := run_bind_eq_ok.mp hbody
        cases hbody
        exact ⟨hf, (ofExcept_eq_ok.mp hs).1, fun _ => fetched_of_fetch hmerged, nofun, nofun⟩
      | false =>
        rw [if_neg Bool.false_ne_true] at hbody
        obtain ⟨out', w₃, hout, hbody⟩ := run_bind_eq_ok.mp hbody
        obtain ⟨err', w₄, herr, hbody⟩ := run_bind_eq_ok.mp hbody
        obtain ⟨s', w₅, hs, hbody⟩ := run_bind_eq_ok.mp hbody
        cases hbody
        exact ⟨hf, (ofExcept_eq_ok.mp hs).1, nofun, fun _ => fetched_of_fetch hout,
          fun _ => fetched_of_fetch herr⟩

theorem exists_fetch {stdout stderr want : Bool}
    (h : want = true → ∀ d, ∃ bs, (E.logs c stdout stderr tail since d).1 = .ok bs) (w : World σ) :
    ∃ bs w', fetch E c stdout stderr want tail since w = .ok bs w' := by
  cases want with
  | false => exact ⟨[], w, rfl⟩
  | true =>
    obtain ⟨bs, hbs⟩ := h rfl w.daemon
    exact ⟨bs, _, request_ok hbs⟩

/-- A found container is read when the daemon answers whatever it is asked of its log. -/
theorem exists_logs {tail : Int} {wantStdout wantStderr tty : Bool} {s : ContainerSnapshot}
    (hc : resolved E name w.daemon = some c) (htty : flag c "Config" "Tty" = .ok tty)
    (hs : snapshot c = .ok s)
    (hlogs : (tty || wantStdout || wantStderr) = true → ∀ stdout stderr d,
      ∃ bs, (E.logs c stdout stderr (asked tail) since d).1 = .ok bs) :
    ∃ out err w', logs E name tail since wantStdout wantStderr w = .ok (out, err, tty, s) w' := by
  obtain ⟨w₁, -, -, hrun⟩ := lookup_run hc
  cases tty with
  | true =>
    obtain ⟨merged, w₂, hmerged⟩ := exists_fetch (fun _ => hlogs rfl true true) w₁
    refine ⟨merged, [], w₂, run_tryCatch_ok ((hrun _).trans ?_)⟩
    rw [htty]
    apply (run_bind_ok (run_pure true w₁)).trans
    apply (run_bind_ok hmerged).trans
    rw [hs]
    rfl
  | false =>
    have hstdout : wantStdout = true → ∀ d, ∃ bs, (E.logs c true false (asked tail) since d).1 = .ok bs :=
      fun h => hlogs (by simp [h]) true false
    have hstderr : wantStderr = true → ∀ d, ∃ bs, (E.logs c false true (asked tail) since d).1 = .ok bs :=
      fun h => hlogs (by simp [h]) false true
    obtain ⟨out, w₂, hout⟩ := exists_fetch hstdout w₁
    obtain ⟨err, w₃, herr⟩ := exists_fetch hstderr w₂
    refine ⟨out, err, w₃, run_tryCatch_ok ((hrun _).trans ?_)⟩
    rw [htty]
    apply (run_bind_ok (run_pure false w₁)).trans
    apply (run_bind_ok hout).trans
    apply (run_bind_ok herr).trans
    rw [hs]
    rfl

end DockerBackend

/-! ### The handler -/

variable {ctx : Context σ} {raw : Bytes} {req : GetLogsRequest} {d : σ} {t : Int}
  {r : GetLogsResponse}

/-- The response to a log request with a name. -/
def logsReply (ctx : Context σ) (req : GetLogsRequest) : Proc σ GetLogsResponse := do
  let tail := effectiveTail ctx.limits req.tailLines
  let (out, err, tty, snapshot) ← DockerBackend.logs ctx.backend req.name tail
    (req.since.map (·.seconds)) (wantStdout req.stream) (wantStderr req.stream)
  ofExcept (logsResponse ctx tail out err tty snapshot)

theorem handleLogs_of_decoded (h : ctx.pb.getLogsRequest raw = .ok req) (hname : req.name ≠ "") :
    handleLogs ctx raw = logsReply ctx req >>= fun r => replyOk (.logs r) := by
  have hrequire : (requireName req.name : Proc σ String) = pure req.name := if_neg hname
  have hparse : (parse "GetLogsRequest" (Except.ok req) : Proc σ GetLogsRequest) = pure req := rfl
  rw [handleLogs, h, hparse, pure_bind, hrequire, pure_bind, logsReply, bind_assoc]

/-- Any other request is refused before the daemon is called. -/
theorem handleLogs_refused (h : ∀ req, ctx.pb.getLogsRequest raw = .ok req → req.name = "")
    (w : World σ) : ∃ e, handleLogs ctx raw w = .error e w := by
  unfold handleLogs
  cases hreq : ctx.pb.getLogsRequest raw with
  | error text => exact ⟨_, rfl⟩
  | ok req =>
    have hrequire : requireName req.name = (throw _ : Proc σ String) := if_pos (h req hreq)
    exact ⟨_, (run_bind_ok (run_pure req w)).trans (run_bind_error (congrFun hrequire w))⟩

theorem silent_logsReply : Silent World.replies (logsReply ctx req) :=
  .bind (DockerBackend.appends_logs DockerBackend.callsAppend_replies) fun _ _ _ _ =>
    DockerBackend.appends_ofExcept

/-- A handler that raises before it has replied is not answered with a response. -/
theorem not_mem_guarded {handler : Bytes → Proc σ Unit} {e : Exn} {w w' : World σ}
    (h : handler raw w = .error e w') (hw' : w'.replies = []) (response : Response) :
    .ok response ∉ (after (guarded handler raw) w).replies := by
  rw [guarded, after, run_tryCatch_error h]
  cases e <;> simp [replyErr, World.answer, hw']

/-- The lines come from a request that decodes and has a name, and from a run of the rest that returns. -/
theorem mem_replies_logs : .ok (.logs r) ∈ replies ctx .logs raw d t ↔
    ∃ req, ctx.pb.getLogsRequest raw = .ok req ∧ req.name ≠ "" ∧
      ∃ w', logsReply ctx req { daemon := d, timeNs := t } = .ok r w' := by
  by_cases hreq : ∃ req, ctx.pb.getLogsRequest raw = .ok req ∧ req.name ≠ ""
  · obtain ⟨req, hreq, hname⟩ := hreq
    have hsame : (∃ req', ctx.pb.getLogsRequest raw = .ok req' ∧ req'.name ≠ "" ∧
        ∃ w', logsReply ctx req' { daemon := d, timeNs := t } = .ok r w') ↔
        ∃ w', logsReply ctx req { daemon := d, timeNs := t } = .ok r w' := by
      constructor
      · rintro ⟨_, h, _, hw'⟩
        cases hreq.symm.trans h
        exact hw'
      · exact fun hw' => ⟨req, hreq, hname, hw'⟩
    rw [hsame]
    have hrun := congrFun (handleLogs_of_decoded hreq hname) { daemon := d, timeNs := t }
    cases hreply : logsReply ctx req { daemon := d, timeNs := t } with
    | error e w' =>
      rw [run_bind_error hreply] at hrun
      have hnone := not_mem_guarded hrun (silent_logsReply.view_error hreply) (.logs r)
      refine iff_of_false hnone ?_
      rintro ⟨_, ⟨⟩⟩
    | ok r' w' =>
      have hnone : w'.replies = [] := silent_logsReply.view_ok hreply
      rw [run_bind_ok hreply] at hrun
      have hafter : replies ctx .logs raw d t = [.ok (.logs r')] := by
        rw [replies, build, guarded, after_ok (run_tryCatch_ok (hrun.trans rfl)), World.answer, hnone]
        rfl
      rw [hafter]
      simp [eq_comm]
  · have hnone : ∀ req, ctx.pb.getLogsRequest raw = .ok req → req.name = "" :=
      fun req h => by_contra fun hname => hreq ⟨req, h, hname⟩
    obtain ⟨e, hrun⟩ := handleLogs_refused hnone { daemon := d, timeNs := t }
    constructor
    · exact fun h => absurd h (not_mem_guarded hrun rfl _)
    · rintro ⟨req, h, hname, -⟩
      exact absurd ⟨req, h, hname⟩ hreq

/-- A named request reads what the backend reads for it. -/
theorem logReads_of_decoded (hreq : ctx.pb.getLogsRequest raw = .ok req) (hname : req.name ≠ "") :
    (∀ x ∈ logReads ctx raw d t, x = (DockerBackend.asked (effectiveTail ctx.limits req.tailLines),
      req.since.map (·.seconds))) ∧
    (logReads ctx raw d t = [] ↔
      readsLog ctx.backend req.name (wantStdout req.stream) (wantStderr req.stream) d = false) := by
  obtain ⟨l, hl, hall, hnil⟩ := DockerBackend.logReads_logs ctx.backend req.name
    (effectiveTail ctx.limits req.tailLines) (req.since.map (·.seconds)) (wantStdout req.stream)
    (wantStderr req.stream) { daemon := d, timeNs := t }
  have hsilent (r : GetLogsResponse) : Silent World.logReads (replyOk (.logs r) : Proc σ Unit) :=
    .nothing fun _ => rfl
  have hadds : Adds World.logReads (build ctx .logs raw) { daemon := d, timeNs := t } l := by
    refine .tryCatch (fun e w => by cases e <;> rfl) ?_
    rw [handleLogs_of_decoded hreq hname]
    refine Adds.then_silent (Adds.then_silent hl ?_) hsilent
    exact fun _ => DockerBackend.appends_ofExcept
  have hreads : logReads ctx raw d t = l := hadds
  rw [hreads]
  exact ⟨hall, hnil⟩

/-- A refused request reads nothing. -/
theorem logReads_of_refused (h : ∀ req, ctx.pb.getLogsRequest raw = .ok req → req.name = "") :
    logReads ctx raw d t = [] := by
  obtain ⟨e, hrun⟩ := handleLogs_refused h { daemon := d, timeNs := t }
  have hadds : Adds World.logReads (build ctx .logs raw) { daemon := d, timeNs := t } [] := by
    refine .tryCatch (fun e w => by cases e <;> rfl) ?_
    rw [Adds, after_error hrun, List.append_nil]
  exact hadds

/-! ### The lines of the response -/

/-- The lines of the streams that were read, before the ceilings. -/
def fetchedLines (pb : Protobuf) (out err : Bytes) (tty : Bool) : List LogLine :=
  if tty then parseLogStream pb out .unspecified
  else mergeLogLines (parseLogStream pb out .stdout) (parseLogStream pb err .stderr)

theorem logsResponse_eq_ok {tail : Int} {out err : Bytes} {tty : Bool} {s : ContainerSnapshot}
    (h : logsResponse ctx tail out err tty s = .ok r) :
    r.lines = (capLogLines (fetchedLines ctx.pb out err tty) tail ctx.limits.maxLogBytes).1 ∧
      0 ≤ tail ∧ tail < 2 ^ 32 := by
  obtain ⟨tailLines, hu, h⟩ := bind_eq_ok.mp h
  cases h
  exact ⟨rfl, (assignInt_eq_ok.mp hu).1⟩

/-- What the reply's lines come from. -/
theorem logsReply_eq_ok {w w' : World σ} (h : logsReply ctx req w = .ok r w') :
    ∃ c out err tty s, resolved ctx.backend req.name w.daemon = some c ∧
      DockerBackend.Read ctx.backend c (DockerBackend.asked (effectiveTail ctx.limits req.tailLines))
        (req.since.map (·.seconds)) (wantStdout req.stream) (wantStderr req.stream) out err tty s ∧
      logsResponse ctx (effectiveTail ctx.limits req.tailLines) out err tty s = .ok r := by
  obtain ⟨⟨out, err, tty, s⟩, w₁, hlogs, h⟩ := run_bind_eq_ok.mp h
  obtain ⟨c, hc, hread⟩ := DockerBackend.read_of_logs hlogs
  exact ⟨c, out, err, tty, s, hc, hread, (ofExcept_eq_ok.mp h).1⟩

end

/-! ### Ceilings that may be none -/

/-- Within the ceilings: one that is zero or less is none. -/
structure Capped (maxLines maxBytes : Int) (s : List LogLine) : Prop where
  lines : 0 < maxLines → s.length ≤ maxLines
  bytes : 0 < maxBytes → totalSize s ≤ maxBytes

theorem totalSize_le_of_suffix {s s' : List LogLine} (h : s <:+ s') : totalSize s ≤ totalSize s' := by
  obtain ⟨t, rfl⟩ := h
  simp [totalSize]

theorem longest_totalSize {maxBytes : Int} (hb : 1 ≤ maxBytes) (lines : List LogLine) :
    Longest (fun s => (totalSize s : Int) ≤ maxBytes) lines
      (last (countFitting maxBytes 0 lines.reverse) lines) := by
  obtain ⟨hle, hfit, hnext⟩ := fitting_spec lines.length hb lines
  rw [fitting, last_of_length_le le_rfl] at hle hfit hnext
  rw [min_self] at hle hnext
  apply Longest.of_next _ (Nat.sub_le _ _) hfit
  · intro j hj hP
    have hj' : lines.drop j = last (countFitting maxBytes 0 lines.reverse + 1) lines := by
      rw [last]
      congr 1
      omega
    rw [hj'] at hP
    have := hnext (by omega)
    omega
  · intro s s' hs hP
    have := totalSize_le_of_suffix hs
    omega

/-- First the lines, then the bytes. -/
theorem capLogLines_fst (maxLines maxBytes : Int) (lines : List LogLine) :
    (capLogLines lines maxLines maxBytes).1 =
      if 0 < maxBytes then
        last (countFitting maxBytes 0 (if 0 < maxLines then last maxLines.toNat lines else lines).reverse)
          (if 0 < maxLines then last maxLines.toNat lines else lines)
      else if 0 < maxLines then last maxLines.toNat lines else lines := by
  have hfirst : (if 0 < maxLines && maxLines < lines.length then
      (lines.drop (lines.length - maxLines.toNat), true) else (lines, false)).1 =
      if 0 < maxLines then last maxLines.toNat lines else lines := by
    by_cases hpos : 0 < maxLines
    · by_cases hlt : maxLines < lines.length
      · simp [hpos, hlt, last]
      · simp [hpos, hlt, last_of_length_le (by omega : lines.length ≤ maxLines.toNat)]
    · simp [hpos]
  rw [← hfirst]
  unfold capLogLines
  generalize (if 0 < maxLines && maxLines < lines.length then
      (lines.drop (lines.length - maxLines.toNat), true) else (lines, false)) = first
  obtain ⟨kept, truncated⟩ := first
  dsimp only
  by_cases hb : 0 < maxBytes
  · rw [if_pos hb, if_pos hb]
    by_cases hstart : 0 < kept.length - countFitting maxBytes 0 kept.reverse
    · rw [if_pos hstart, last]
    · rw [if_neg hstart, last_of_length_le (by omega)]
  · rw [if_neg hb, if_neg hb]

/-- The cap keeps the longest suffix within the ceilings there are. -/
theorem longest_capped (maxLines maxBytes : Int) (lines : List LogLine) :
    Longest (Capped maxLines maxBytes) lines (capLogLines lines maxLines maxBytes).1 := by
  rw [capLogLines_fst]
  have hlines : Longest (fun s : List LogLine => 0 < maxLines → s.length ≤ maxLines) lines
      (if 0 < maxLines then last maxLines.toNat lines else lines) := by
    by_cases hpos : 0 < maxLines
    · rw [if_pos hpos]
      have h := longest_last maxLines.toNat lines
      refine ⟨h.suffix, fun _ => ?_, fun s hs hn => h.longest s hs ?_⟩
      · exact (Int.ofNat_le.mpr h.holds).trans_eq (Int.toNat_of_nonneg hpos.le)
      · have := hn hpos
        omega
    · rw [if_neg hpos]
      exact longest_self fun h => absurd h hpos
  generalize (if 0 < maxLines then last maxLines.toNat lines else lines) = kept at hlines
  have hbytes : Longest (fun s => 0 < maxBytes → (totalSize s : Int) ≤ maxBytes) kept
      (if 0 < maxBytes then last (countFitting maxBytes 0 kept.reverse) kept else kept) := by
    by_cases hb : 0 < maxBytes
    · rw [if_pos hb]
      have h := longest_totalSize hb kept
      exact ⟨h.suffix, fun _ => h.holds, fun s hs hn => h.longest s hs (hn hb)⟩
    · rw [if_neg hb]
      exact longest_self fun h => absurd h hb
  have h := hlines.and hbytes fun s s' hs hP hpos => by
    have := hs.length_le
    have := hP hpos
    omega
  exact ⟨h.suffix, ⟨h.holds.1, h.holds.2⟩, fun s hs hfit => h.longest s hs ⟨hfit.lines, hfit.bytes⟩⟩

end KeelsonDocker
