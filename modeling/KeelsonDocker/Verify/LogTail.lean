import KeelsonDocker.Verify.Host
import KeelsonDocker.Verify.MergedLogs
import KeelsonDocker.Verify.Replies

/-!
# The tail of the logs

A log reply is cut from the last lines of each stream, and is the tail of the merge of all of them
(`replies_logs_tail`).
-/

namespace KeelsonDocker

open Effect Tail

section

variable {σ : Type} {pb : Protobuf} {stream : LogStream}

/-- All a stream has written: lines that parse, with times that do not decrease. -/
structure History (pb : Protobuf) (stream : LogStream) where
  chunks : List Bytes
  lines : List LogLine
  parses : chunks.map (parseLogLine pb · stream) = lines.map some
  oneLine : ∀ chunk ∈ chunks, newline ∉ chunk
  ordered : Ordered lines

namespace History

/-- The last `n` lines as the daemon sends them. -/
def tail (h : History pb stream) (n : Nat) : Bytes := (last n h.chunks).flatMap (· ++ [newline])

theorem flatMap_newline (chunks : List Bytes) :
    chunks.flatMap (· ++ [newline]) = [newline].intercalate (chunks ++ [[]]) := by
  induction chunks with
  | nil => rfl
  | cons chunk chunks ih =>
    rw [List.flatMap_cons, ih, List.cons_append, List.intercalate_cons_of_ne_nil (by simp)]

/-- The line a chunk is not: one that is blank. -/
theorem parseLogLine_nil : parseLogLine pb [] stream = none := rfl

theorem parseLogStream_tail (h : History pb stream) (n : Nat) :
    parseLogStream pb (h.tail n) stream = last n h.lines := by
  have hparse : (last n h.chunks).filterMap (parseLogLine pb · stream) = last n h.lines := by
    have hmap := congrArg (last n) h.parses
    rw [← map_last, ← map_last] at hmap
    calc (last n h.chunks).filterMap (parseLogLine pb · stream)
        = ((last n h.chunks).map (parseLogLine pb · stream)).filterMap id := by
          rw [List.filterMap_map]
          rfl
      _ = last n h.lines := by
          rw [hmap, List.filterMap_map]
          exact List.filterMap_some
  by_cases hempty : last n h.chunks = []
  · rw [hempty] at hparse
    simp [tail, hempty, parseLogStream, ← hparse]
  · have hne : (h.tail n).isEmpty = false := by
      obtain ⟨chunk, chunks, hcons⟩ := List.exists_cons_of_ne_nil hempty
      simp [tail, hcons]
    have hsplit : (h.tail n).splitOn newline = last n h.chunks ++ [[]] := by
      rw [tail, flatMap_newline]
      refine List.splitOn_intercalate newline (fun chunk hc => ?_) (by simp)
      rcases List.mem_append.mp hc with hc | hc
      · exact h.oneLine chunk ((last_suffix n h.chunks).subset hc)
      · rw [List.mem_singleton.mp hc]
        exact List.not_mem_nil
    rw [parseLogStream, hne, hsplit, List.filterMap_append, hparse]
    simp [parseLogLine_nil]

/-- The lines of a stream, if it is selected. -/
def selected (h : History pb stream) (want : Bool) : List LogLine := if want then h.lines else []

theorem ordered_selected (h : History pb stream) (want : Bool) : Ordered (h.selected want) := by
  cases want with
  | false => exact ⟨nofun, .nil⟩
  | true => exact h.ordered

theorem parseLogStream_selected (h : History pb stream) (want : Bool) (n : Nat) :
    parseLogStream pb (if want then h.tail n else []) stream = last n (h.selected want) := by
  cases want with
  | false => simp [parseLogStream, selected]
  | true => exact h.parseLogStream_tail n

end History

/-! ### The backend -/

theorem DockerBackend.fetch_ok {E : Engine σ} {c : Container} {out err want : Bool} {tail : Option Nat}
    {since : Option Int} {bs : Bytes}
    (h : want = true → ∀ d, (E.logs c out err tail since d).1 = .ok bs) (w : World σ) :
    ∃ w', DockerBackend.fetch E c out err want tail since w = .ok (if want then bs else []) w' := by
  cases want with
  | false => exact ⟨w, rfl⟩
  | true => exact ⟨_, request_ok (h rfl w.daemon)⟩

/-- What `logs` returns for a container without a TTY whose daemon serves both streams. -/
theorem DockerBackend.logs_ok (E : Engine σ) (name : String) (since : Option Int)
    (wantStdout wantStderr : Bool) (w : World σ) {c : Container} {n : Nat} {out err : Bytes}
    {s : ContainerSnapshot} {u : Unit} (hn : 1 ≤ n) (hc : (E.fromEnv w.daemon).1 = .ok u)
    (hget : (E.get name (E.fromEnv w.daemon).2).1 = .ok c)
    (htty : DockerBackend.flag c "Config" "Tty" = .ok false) (hs : DockerBackend.snapshot c = .ok s)
    (hout : wantStdout = true → ∀ d, (E.logs c true false (some n) since d).1 = .ok out)
    (herr : wantStderr = true → ∀ d, (E.logs c false true (some n) since d).1 = .ok err) :
    ∃ w', DockerBackend.logs E name n since wantStdout wantStderr w =
      .ok (if wantStdout then out else [], if wantStderr then err else [], false, s) w' := by
  have htail : (if (0 : Int) < n then some (n : Int).toNat else none) = some n := by
    simp [Nat.lt_of_lt_of_le Nat.one_pos hn]
  have hget' := request_ok (w := w.asked .fromEnv (E.fromEnv w.daemon).2) (c := .get name) hget
  obtain ⟨w₁, hw₁⟩ := DockerBackend.fetch_ok hout
    ((w.asked .fromEnv (E.fromEnv w.daemon).2).asked (.get name) (E.get name (E.fromEnv w.daemon).2).2)
  obtain ⟨w₂, hw₂⟩ := DockerBackend.fetch_ok herr w₁
  refine ⟨w₂, run_tryCatch_ok ?_⟩
  refine (run_bind_ok (DockerBackend.client_ok hc)).trans ((run_bind_ok hget').trans ?_)
  rw [htty]
  apply (run_bind_ok (rfl : ofExcept (liftPy (.ok false)) _ = .ok false _)).trans
  rw [htail]
  refine (run_bind_ok hw₁).trans ((run_bind_ok hw₂).trans ?_)
  rw [hs]
  rfl

/-! ### The reply -/

/-- The reply's lines are the longest suffix, within `n` lines and the byte ceiling, of the merge of the
complete streams, and `truncated` tells whether a fetched line was left out. -/
structure IsTail (limits : Limits) (n : Nat) (stdout stderr : List LogLine) (r : GetLogsResponse) :
    Prop where
  lines : Longest (fun s => s.length ≤ n ∧ totalSize s ≤ limits.maxLogBytes)
    (mergeLogLines stdout stderr) r.lines
  fetched : r.lines <:+ mergeLogLines (last n stdout) (last n stderr)
  truncated : r.truncated = true ↔ r.lines ≠ mergeLogLines (last n stdout) (last n stderr)

theorem isTail_capLogLines {limits : Limits} {n : Nat} {stdout stderr : List LogLine}
    (hn : 1 ≤ n) (hb : 1 ≤ limits.maxLogBytes) (hout : Ordered stdout) (herr : Ordered stderr)
    {r : GetLogsResponse}
    (hr : (r.lines, r.truncated) =
      capLogLines (mergeLogLines (last n stdout) (last n stderr)) n limits.maxLogBytes) :
    IsTail limits n stdout stderr r := by
  have hlines := congrArg Prod.fst hr
  have htrunc := congrArg Prod.snd hr
  dsimp only at hlines htrunc
  have hlong := longest_capLogLines hn hb (mergeLogLines (last n stdout) (last n stderr))
  have hcap := capLogLines_truncated hn hb (mergeLogLines (last n stdout) (last n stderr))
  rw [← hlines] at hlong
  rw [← hlines, ← htrunc] at hcap
  refine ⟨hlong.of_last_eq (fun s hs => hs.1) (last_mergeLogLines hout herr n), hlong.suffix, ?_⟩
  rw [hcap]
  constructor
  · intro hlt heq
    rw [heq] at hlt
    exact Nat.lt_irrefl _ hlt
  · intro hne
    exact hlong.suffix.length_le.lt_of_ne fun heq => hne (hlong.suffix.eq_of_length heq)

theorem logsResponse_yields {ctx : Context σ} {n : Nat} {out err : Bytes}
    {snapshot : ContainerSnapshot} :
    Yields (fun r => (r.lines, r.truncated) =
        capLogLines (mergeLogLines (parseLogStream ctx.pb out .stdout)
          (parseLogStream ctx.pb err .stderr)) n ctx.limits.maxLogBytes)
      (logsResponse ctx n out err false snapshot) :=
  .bind fun _ => .pure rfl

/-- The reply fails only on an effective tail that its field cannot hold. -/
theorem logsResponse_isOk {ctx : Context σ} {n : Int} {out err : Bytes} {tty : Bool}
    {snapshot : ContainerSnapshot} (hn : 0 ≤ n ∧ n < 2 ^ 32) :
    ∃ r, logsResponse ctx n out err tty snapshot = .ok r := by
  have hu : uint32 n = .ok n := assignInt_eq_ok.mpr ⟨hn, rfl⟩
  unfold logsResponse
  rw [hu]
  exact ⟨_, rfl⟩

/-- Replies of a guarded handler whose last step is to reply with a computed response. -/
theorem replies_guarded {handler : Bytes → Proc σ Unit} {raw : Bytes} {w w' : World σ}
    {x : Except Exn GetLogsResponse} (hw' : w'.replies = [])
    (hrun : handler raw w = (do let r ← ofExcept x; replyOk (.logs r)) w') :
    (∀ r, .ok (.logs r) ∈ (after (guarded handler raw) w).replies → x = .ok r) ∧
      ∀ r, x = .ok r → (after (guarded handler raw) w).replies = [.ok (.logs r)] := by
  cases x with
  | ok r =>
    have hr : (after (guarded handler raw) w).replies = [.ok (.logs r)] := by
      rw [guarded, after_ok (run_tryCatch_ok (hrun.trans rfl)), World.answer, hw', List.nil_append]
    refine ⟨fun r' hr' => ?_, fun r' hr' => ?_⟩
    · rw [hr, List.mem_singleton] at hr'
      cases hr'
      rfl
    · cases hr'
      exact hr
  | error e =>
    refine ⟨fun r hr => ?_, fun r hr => ?_⟩
    · rw [guarded, after, run_tryCatch_error (hrun.trans rfl)] at hr
      cases e <;> simp [replyErr, World.answer, hw'] at hr
    · cases hr

theorem replies_logs_tail {ctx : Context σ} {raw : Bytes} {req : GetLogsRequest} {d : σ} {t : Int}
    {n : Nat} {snapshot : ContainerSnapshot} {w' : World σ}
    (out : History ctx.pb .stdout) (err : History ctx.pb .stderr)
    (hreq : ctx.pb.getLogsRequest raw = .ok req) (hname : req.name ≠ "")
    (htail : effectiveTail ctx.limits req.tailLines = n) (hn : 1 ≤ n)
    (hb : 1 ≤ ctx.limits.maxLogBytes)
    (hlogs : DockerBackend.logs ctx.backend req.name n (req.since.map (·.seconds))
        (wantStdout req.stream) (wantStderr req.stream) { daemon := d, timeNs := t } =
      .ok (if wantStdout req.stream then out.tail n else [],
        if wantStderr req.stream then err.tail n else [], false, snapshot) w') :
    (∀ r, .ok (.logs r) ∈ replies ctx .logs raw d t →
      IsTail ctx.limits n (out.selected (wantStdout req.stream))
        (err.selected (wantStderr req.stream)) r) ∧
    (n < 2 ^ 32 → ∃ r, replies ctx .logs raw d t = [.ok (.logs r)]) := by
  have hnone : w'.replies = [] := by
    obtain ⟨l, hl, hP⟩ := DockerBackend.appends_logs (E := ctx.backend)
      (DockerBackend.callsAppend_replies (P := fun _ => False)) _
    rw [Adds, after_ok hlogs, List.eq_nil_iff_forall_not_mem.mpr hP] at hl
    exact hl
  have hrun : handleLogs ctx raw { daemon := d, timeNs := t } =
      (do
        let r ← ofExcept (logsResponse ctx n (if wantStdout req.stream then out.tail n else [])
          (if wantStderr req.stream then err.tail n else []) false snapshot)
        replyOk (.logs r)) w' := by
    unfold handleLogs
    rw [hreq, ← htail]
    rw [← htail] at hlogs
    have hrequire : requireName req.name { daemon := d, timeNs := t } =
        .ok req.name { daemon := d, timeNs := t } := by
      rw [requireName, if_neg hname]
      rfl
    apply (run_bind_ok (rfl : parse _ (.ok req) _ = .ok req _)).trans
    exact (run_bind_ok hrequire).trans (run_bind_ok hlogs)
  obtain ⟨hmem, hall⟩ := replies_guarded hnone hrun
  refine ⟨fun r hr => ?_, fun hlt => ?_⟩
  · have hcap := logsResponse_yields r (hmem r hr)
    rw [out.parseLogStream_selected, err.parseLogStream_selected] at hcap
    exact isTail_capLogLines hn hb (out.ordered_selected _) (err.ordered_selected _) hcap
  · have hfits : (0 : Int) ≤ n ∧ (n : Int) < 2 ^ 32 := by omega
    obtain ⟨r, hr⟩ := logsResponse_isOk hfits
    exact ⟨r, hall r hr⟩

end

/-! ### Two lines of three -/

namespace TwoStreams

def stamped : Protobuf where
  __ := wire
  timestampFromJson
    | "2024-05-01T10:00:01Z" => some ⟨1714557601, 0⟩
    | "2024-05-01T10:00:02Z" => some ⟨1714557602, 0⟩
    | "2024-05-01T10:00:03Z" => some ⟨1714557603, 0⟩
    | _ => none

def out : History stamped .stdout where
  chunks := [ascii "2024-05-01T10:00:01Z up", ascii "2024-05-01T10:00:03Z ready"]
  lines := [⟨some ⟨1714557601, 0⟩, .stdout, "up"⟩, ⟨some ⟨1714557603, 0⟩, .stdout, "ready"⟩]
  parses := by decide +kernel
  oneLine := by decide +kernel
  ordered := ⟨by decide, by decide +kernel⟩

def err : History stamped .stderr where
  chunks := [ascii "2024-05-01T10:00:02Z no config"]
  lines := [⟨some ⟨1714557602, 0⟩, .stderr, "no config"⟩]
  parses := by decide +kernel
  oneLine := by decide +kernel
  ordered := ⟨by decide, by decide +kernel⟩

def engine : Engine (List Container) where
  __ := host
  logs _ stdout _ tail _ cs :=
    (.ok (if stdout then out.tail (tail.getD 2) else err.tail (tail.getD 2)), cs)

def ctx : Context (List Container) where
  backend := engine
  guard := {}
  limits := { defaultTailLines := 2 }
  pb := stamped

theorem replies_logs_tail_two : ∃ r,
    replies ctx .logs (writeName "zenoh-router") [router] 0 = [.ok (.logs r)] ∧
      IsTail ctx.limits 2 out.lines err.lines r := by
  obtain ⟨w', hlogs⟩ := DockerBackend.logs_ok engine "zenoh-router" none true true
    { daemon := [router] } (n := 2) (by decide) rfl rfl rfl rfl (fun _ _ => rfl) fun _ _ => rfl
  have hreq : ctx.pb.getLogsRequest (writeName "zenoh-router") =
      .ok { name := "zenoh-router", tailLines := 0, since := none, stream := .unspecified } := rfl
  obtain ⟨htail, hreply⟩ := replies_logs_tail (d := [router]) (t := 0) (n := 2)
    (show History ctx.pb .stdout from out) (show History ctx.pb .stderr from err) hreq
    (by decide) rfl (by decide) (by decide) hlogs
  obtain ⟨r, hr⟩ := hreply (by decide)
  exact ⟨r, hr, htail r (hr ▸ List.mem_singleton_self _)⟩

end TwoStreams

end KeelsonDocker
