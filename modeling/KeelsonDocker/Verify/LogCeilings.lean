import KeelsonDocker.Verify.LogRequests
import KeelsonDocker.Verify.LogTail

/-!
# The ceilings of a log reply

With ceilings of at least one, a log request stays within them exactly when it reads no log, asks for a
number of lines, or the default is a number of lines (`withinCeilings_iff`): where both are zero or
less, the tail is not positive, which the backend takes for "all" and `capLogLines` for "no cap".
-/

namespace KeelsonDocker

open Effect Tail

section

variable {σ : Type} {ctx : Context σ} {raw : Bytes} {d : σ} {t : Int}

/-- The reply is within both ceilings, and no stream is read beyond the ceiling on lines. -/
structure WithinCeilings (ctx : Context σ) (raw : Bytes) (d : σ) (t : Int) : Prop where
  reply : ∀ r, .ok (.logs r) ∈ replies ctx .logs raw d t →
    r.lines.length ≤ ctx.limits.maxTailLines ∧ totalSize r.lines ≤ ctx.limits.maxLogBytes
  reads : ∀ tail since, (tail, since) ∈ logReads ctx raw d t →
    ∃ n : Nat, tail = some n ∧ n ≤ ctx.limits.maxTailLines

/-- The request comes with a number of lines, of its own or by default. -/
def Numbered (limits : Limits) (req : GetLogsRequest) : Prop :=
  req.tailLines ≠ 0 ∨ 1 ≤ limits.defaultTailLines

theorem effectiveTail_pos {limits : Limits} (hmax : 1 ≤ limits.maxTailLines) {req : GetLogsRequest} :
    1 ≤ effectiveTail limits req.tailLines ↔ Numbered limits req := by
  unfold effectiveTail Numbered
  split
  · rename_i h
    simp only [h, ne_eq, not_false_eq_true, true_or, iff_true]
    omega
  · rename_i h
    simp only [h, false_or]
    omega

theorem DockerBackend.asked_eq_some {tail : Int} {n : Nat} :
    asked tail = some n ↔ 1 ≤ tail ∧ tail.toNat = n := by
  unfold asked
  split
  · rename_i h
    exact ⟨fun heq => ⟨h, Option.some.inj heq⟩, fun heq => congrArg some heq.2⟩
  · rename_i h
    exact ⟨nofun, fun heq => absurd heq.1 h⟩

theorem effectiveTail_le (limits : Limits) (tailLines : Nat) :
    effectiveTail limits tailLines ≤ limits.maxTailLines := min_le_right ..

/-- Without a stream that is read there are no lines. -/
theorem DockerBackend.Read.fetchedLines_eq_nil {E : Engine σ} {c : Container} {tail : Option Nat}
    {since : Option Int} {wantStdout wantStderr tty : Bool} {out err : Bytes} {s : ContainerSnapshot}
    (h : Read E c tail since wantStdout wantStderr out err tty s)
    (hnone : (tty || wantStdout || wantStderr) = false) (pb : Protobuf) :
    fetchedLines pb out err tty = [] := by
  simp only [Bool.or_eq_false_iff] at hnone
  obtain ⟨⟨rfl, rfl⟩, rfl⟩ := hnone
  obtain rfl : out = [] := h.stdout rfl
  obtain rfl : err = [] := h.stderr rfl
  rfl

theorem DockerBackend.Read.readsLog_eq {E : Engine σ} {name : String} {d : σ} {c : Container}
    {tail : Option Nat} {since : Option Int} {wantStdout wantStderr tty : Bool} {out err : Bytes}
    {s : ContainerSnapshot} (h : Read E c tail since wantStdout wantStderr out err tty s)
    (hc : resolved E name d = some c) :
    readsLog E name wantStdout wantStderr d = (tty || wantStdout || wantStderr) := by
  simp [readsLog, hc, h.flag_eq]

/-- A read was asked for by a named request of which a stream is read. -/
theorem of_mem_logReads {x : Option Nat × Option Int} (h : x ∈ logReads ctx raw d t) :
    ∃ req, ctx.pb.getLogsRequest raw = .ok req ∧ req.name ≠ "" ∧
      x = (DockerBackend.asked (effectiveTail ctx.limits req.tailLines), req.since.map (·.seconds)) ∧
      readsLog ctx.backend req.name (wantStdout req.stream) (wantStderr req.stream) d = true := by
  by_cases hreq : ∃ req, ctx.pb.getLogsRequest raw = .ok req ∧ req.name ≠ ""
  · obtain ⟨req, hreq, hname⟩ := hreq
    obtain ⟨hall, hnil⟩ := logReads_of_decoded (d := d) (t := t) hreq hname
    refine ⟨req, hreq, hname, hall x h, ?_⟩
    apply Bool.eq_true_of_not_eq_false
    rw [← hnil]
    exact List.ne_nil_of_mem h
  · have hnone : ∀ req, ctx.pb.getLogsRequest raw = .ok req → req.name = "" :=
      fun req h => by_contra fun hname => hreq ⟨req, h, hname⟩
    rw [logReads_of_refused hnone] at h
    cases h

/-- A reply to a request with a number of lines, if a stream was read for it, is within the ceilings. -/
theorem within_of_reply (hmax : 1 ≤ ctx.limits.maxTailLines) (hb : 1 ≤ ctx.limits.maxLogBytes)
    {req : GetLogsRequest} {r : GetLogsResponse} {w w' : World σ}
    (h : readsLog ctx.backend req.name (wantStdout req.stream) (wantStderr req.stream) w.daemon = true →
      Numbered ctx.limits req) (hreply : logsReply ctx req w = .ok r w') :
    r.lines.length ≤ ctx.limits.maxTailLines ∧ totalSize r.lines ≤ ctx.limits.maxLogBytes := by
  obtain ⟨c, out, err, tty, s, hc, hread, hresponse⟩ := logsReply_eq_ok hreply
  obtain ⟨hlines, -, -⟩ := logsResponse_eq_ok hresponse
  have hlong := longest_capped (effectiveTail ctx.limits req.tailLines) ctx.limits.maxLogBytes
    (fetchedLines ctx.pb out err tty)
  rw [← hlines] at hlong
  rw [hread.readsLog_eq hc] at h
  refine ⟨?_, hlong.holds.bytes (by omega)⟩
  cases hreads : tty || wantStdout req.stream || wantStderr req.stream with
  | true =>
    have hpos := (effectiveTail_pos hmax).mpr (h hreads)
    exact (hlong.holds.lines (by omega)).trans (effectiveTail_le _ _)
  | false =>
    have hnil : r.lines = [] := by
      rw [hread.fetchedLines_eq_nil hreads] at hlong
      exact List.suffix_nil.mp hlong.suffix
    rw [hnil, List.length_nil]
    omega

theorem withinCeilings_iff (hmax : 1 ≤ ctx.limits.maxTailLines) (hb : 1 ≤ ctx.limits.maxLogBytes) :
    WithinCeilings ctx raw d t ↔
      ∀ req, ctx.pb.getLogsRequest raw = .ok req → req.name ≠ "" →
        readsLog ctx.backend req.name (wantStdout req.stream) (wantStderr req.stream) d = true →
        Numbered ctx.limits req := by
  constructor
  · intro h req hreq hname hreads
    obtain ⟨hall, hnil⟩ := logReads_of_decoded (d := d) (t := t) hreq hname
    obtain ⟨x, hx⟩ := List.exists_mem_of_ne_nil (logReads ctx raw d t) (by simp [hnil, hreads])
    obtain ⟨n, hn, -⟩ := h.reads _ _ (hall x hx ▸ hx)
    exact (effectiveTail_pos hmax).mp (DockerBackend.asked_eq_some.mp hn).1
  · intro h
    refine ⟨fun r hr => ?_, fun tail since hread => ?_⟩
    · obtain ⟨req, hreq, hname, w', hreply⟩ := mem_replies_logs.mp hr
      exact within_of_reply hmax hb (h req hreq hname) hreply
    · obtain ⟨req, hreq, hname, heq, hreads⟩ := of_mem_logReads hread
      have hpos := (effectiveTail_pos hmax).mpr (h req hreq hname hreads)
      cases heq
      exact ⟨_, DockerBackend.asked_eq_some.mpr ⟨hpos, rfl⟩,
        (Int.toNat_of_nonneg (by omega)).trans_le (effectiveTail_le _ _)⟩

end

/-! ### A default of zero -/

namespace NoDefault

open TwoStreams

/-- A ceiling of one line, and a default that is no number of lines. -/
def ctx : Context (List Container) where
  backend := engine
  guard := {}
  limits := { defaultTailLines := 0, maxTailLines := 1 }
  pb := stamped

def reply : GetLogsResponse where
  name := "zenoh-router"
  id := router.id
  lines := [⟨some ⟨1714557601, 0⟩, .stdout, "up"⟩, ⟨some ⟨1714557602, 0⟩, .stderr, "no config"⟩,
    ⟨some ⟨1714557603, 0⟩, .stdout, "ready"⟩]
  truncated := false
  tailLines := 0

theorem replies_eq : replies ctx .logs (writeName "zenoh-router") [router] 0 = [.ok (.logs reply)] := by
  rfl

/-- With ceilings of one line and a million bytes, three lines come back and all were asked for. -/
theorem not_withinCeilings_zero : 1 ≤ ctx.limits.maxTailLines ∧ 1 ≤ ctx.limits.maxLogBytes ∧
    ¬ WithinCeilings ctx (writeName "zenoh-router") [router] 0 := by
  refine ⟨by decide, by decide, fun h => ?_⟩
  have hmem : .ok (.logs reply) ∈ replies ctx .logs (writeName "zenoh-router") [router] 0 := by
    rw [replies_eq]
    exact List.mem_singleton_self _
  exact absurd (h.reply reply hmem).1 (by decide)

end NoDefault

namespace TwoStreams

theorem withinCeilings_two : WithinCeilings ctx (writeName "zenoh-router") [router] 0 := by
  apply (withinCeilings_iff (by decide) (by decide)).mpr
  intro req hreq _ _
  cases hreq
  exact .inr (by decide)

end TwoStreams

end KeelsonDocker
