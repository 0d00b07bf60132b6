import KeelsonDocker.Verify.LogRequests
import KeelsonDocker.Verify.LogTail

/-!
# Log requests with `since`

The handler sends whole seconds on and filters nothing afterwards, so `since` is honoured exactly when
its second is one that Docker takes, if it is asked at all, and no line from the fraction of that second
before `since` is near enough to the end to be kept (`honoursSince_iff`).
-/

namespace KeelsonDocker

open Effect Tail

section

variable {σ : Type} {ctx : Context σ} {raw plain : Bytes} {d : σ} {t : Int}

/-- `u` is earlier than `v`. -/
def Timestamp.before (u v : Timestamp) : Prop := toLex (u.seconds, u.nanos) < toLex (v.seconds, v.nanos)

/-- The request is answered, and with no line earlier than `since`. -/
structure HonoursSince (ctx : Context σ) (raw : Bytes) (d : σ) (t : Int) (since : Timestamp) : Prop where
  answered : ∃ r, .ok (.logs r) ∈ replies ctx .logs raw d t
  notBefore : ∀ r, .ok (.logs r) ∈ replies ctx .logs raw d t →
    ∀ line ∈ r.lines, ∀ u, line.time = some u → ¬ u.before since

/-- Docker's `logs(since=s)`: a positive second only, and then what `content` has of each selection of
streams, which is from that second on. -/
structure FromSecond (ctx : Context σ) (c : Container) (tail : Option Nat) (s : Int)
    (content : Bool → Bool → Bytes) : Prop where
  refused : s ≤ 0 → ∀ stdout stderr d, ∃ text,
    (ctx.backend.logs c stdout stderr tail (some s) d).1 = .error (.docker .dockerException text)
  served : 0 < s → ∀ stdout stderr d,
    (ctx.backend.logs c stdout stderr tail (some s) d).1 = .ok (content stdout stderr)
  fromSecond : ∀ stdout stderr stream, ∀ line ∈ parseLogStream ctx.pb (content stdout stderr) stream,
    ∀ u, line.time = some u → s ≤ u.seconds

/-- The lines Docker has for a request, before the ceilings. -/
def contentLines (pb : Protobuf) (content : Bool → Bool → Bytes) (tty wantStdout wantStderr : Bool) :
    List LogLine :=
  if tty then parseLogStream pb (content true true) .unspecified
  else mergeLogLines (parseLogStream pb (if wantStdout then content true false else []) .stdout)
    (parseLogStream pb (if wantStderr then content false true else []) .stderr)

/-- The line is of the second of `since`, but before it. -/
def InDroppedFraction (since : Timestamp) (line : LogLine) : Prop :=
  ∃ u, line.time = some u ∧ u.seconds = since.seconds ∧ u.nanos < since.nanos

theorem before_iff_of_le {u since : Timestamp} (h : since.seconds ≤ u.seconds) :
    u.before since ↔ u.seconds = since.seconds ∧ u.nanos < since.nanos := by
  rw [Timestamp.before, Prod.Lex.toLex_lt_toLex]
  constructor
  · intro hlt
    rcases hlt with hlt | ⟨heq, hlt⟩
    · exact absurd hlt (not_lt.mpr h)
    · exact ⟨heq, hlt⟩
  · exact .inr

/-! ### The lines of a reply -/

theorem mem_or_mem_of_mem_mergeLogLines {stdout stderr : List LogLine} {line : LogLine}
    (h : line ∈ mergeLogLines stdout stderr) : line ∈ stdout ∨ line ∈ stderr := by
  unfold mergeLogLines at h
  split at h
  · exact .inl h
  split at h
  · exact .inr h
  obtain ⟨x, hx, rfl⟩ := List.mem_map.mp h
  rcases List.mem_append.mp ((List.mem_insertionSort _).mp hx) with hx | hx
  · have hline := List.mem_map_of_mem (f := Prod.snd) hx
    rw [map_snd_keyLines] at hline
    exact .inl hline
  · have hline := List.mem_map_of_mem (f := Prod.snd) hx
    rw [map_snd_keyLines] at hline
    exact .inr hline

variable {c : Container} {tail : Option Nat} {s : Int} {content : Bool → Bool → Bytes}

namespace FromSecond

theorem second_le (h : FromSecond ctx c tail s content) {tty wantStdout wantStderr : Bool} :
    ∀ line ∈ contentLines ctx.pb content tty wantStdout wantStderr,
      ∀ u, line.time = some u → s ≤ u.seconds := by
  intro line hline
  unfold contentLines at hline
  split at hline
  · exact h.fromSecond _ _ _ line hline
  rcases mem_or_mem_of_mem_mergeLogLines hline with hline | hline
  · split at hline
    · exact h.fromSecond _ _ _ line hline
    · cases hline
  · split at hline
    · exact h.fromSecond _ _ _ line hline
    · cases hline

/-- A stream that was fetched was fetched since a positive second. -/
theorem fetched (h : FromSecond ctx c tail s content) {stdout stderr want : Bool} {bs : Bytes}
    (hbs : DockerBackend.Fetched ctx.backend c stdout stderr want tail (some s) bs) :
    (want = true → 0 < s) ∧ bs = if want then content stdout stderr else [] := by
  cases want with
  | false => exact ⟨nofun, hbs⟩
  | true =>
    obtain ⟨d, hd⟩ := hbs
    have hpos : 0 < s := by
      by_contra hneg
      obtain ⟨text, ht⟩ := h.refused (by omega) stdout stderr d
      cases ht.symm.trans hd
    exact ⟨fun _ => hpos, Except.ok.inj (hd.symm.trans (h.served hpos stdout stderr d))⟩

theorem fetchedLines_eq (h : FromSecond ctx c tail s content) {wantStdout wantStderr tty : Bool}
    {out err : Bytes} {snapshot : ContainerSnapshot}
    (hread : DockerBackend.Read ctx.backend c tail (some s) wantStdout wantStderr out err tty snapshot) :
    ((tty || wantStdout || wantStderr) = true → 0 < s) ∧
      fetchedLines ctx.pb out err tty = contentLines ctx.pb content tty wantStdout wantStderr := by
  cases tty with
  | true =>
    obtain ⟨hpos, rfl⟩ := h.fetched (hread.merged rfl)
    exact ⟨fun _ => hpos rfl, rfl⟩
  | false =>
    obtain ⟨hout, rfl⟩ := h.fetched (hread.stdout rfl)
    obtain ⟨herr, rfl⟩ := h.fetched (hread.stderr rfl)
    refine ⟨fun hwant => ?_, rfl⟩
    cases wantStdout with
    | true => exact hout rfl
    | false => exact herr hwant

end FromSecond

section

variable {req : GetLogsRequest} {since : Timestamp} {tty : Bool}

/-- What every reply is made of. -/
theorem longest_of_mem_replies {r : GetLogsResponse}
    (hreq : ctx.pb.getLogsRequest raw = .ok { req with since := some since })
    (hc : resolved ctx.backend req.name d = some c)
    (htty : DockerBackend.flag c "Config" "Tty" = .ok tty)
    (hdocker : FromSecond ctx c (DockerBackend.asked (effectiveTail ctx.limits req.tailLines))
      since.seconds content)
    (hr : .ok (.logs r) ∈ replies ctx .logs raw d t) :
    ((tty || wantStdout req.stream || wantStderr req.stream) = true → 0 < since.seconds) ∧
      Longest (Capped (effectiveTail ctx.limits req.tailLines) ctx.limits.maxLogBytes)
        (contentLines ctx.pb content tty (wantStdout req.stream) (wantStderr req.stream)) r.lines := by
  obtain ⟨req', hreq', -, w', hreply⟩ := mem_replies_logs.mp hr
  cases hreq.symm.trans hreq'
  obtain ⟨c', out, err, tty', s, hc', hread, hresponse⟩ := logsReply_eq_ok hreply
  cases hc.symm.trans hc'
  cases htty.symm.trans hread.flag_eq
  obtain ⟨hpos, hfetched⟩ := hdocker.fetchedLines_eq hread
  obtain ⟨hlines, -, -⟩ := logsResponse_eq_ok hresponse
  rw [hlines, ← hfetched]
  exact ⟨hpos, longest_capped _ _ _⟩

/-- A request that is answered without `since` is answered with one, if Docker takes its second. -/
theorem exists_reply_of_plain (hreq : ctx.pb.getLogsRequest raw = .ok { req with since := some since })
    (hplain : ctx.pb.getLogsRequest plain = .ok { req with since := none })
    (hanswered : ∃ r, .ok (.logs r) ∈ replies ctx .logs plain d t)
    (hc : resolved ctx.backend req.name d = some c)
    (htty : DockerBackend.flag c "Config" "Tty" = .ok tty)
    (hdocker : FromSecond ctx c (DockerBackend.asked (effectiveTail ctx.limits req.tailLines))
      since.seconds content)
    (hpos : (tty || wantStdout req.stream || wantStderr req.stream) = true → 0 < since.seconds) :
    ∃ r, .ok (.logs r) ∈ replies ctx .logs raw d t := by
  obtain ⟨r, hr⟩ := hanswered
  obtain ⟨req', hreq', hname, w', hreply⟩ := mem_replies_logs.mp hr
  cases hplain.symm.trans hreq'
  obtain ⟨c', out, err, tty', snapshot, hc', hread, hresponse⟩ := logsReply_eq_ok hreply
  cases hc.symm.trans hc'
  obtain ⟨-, hn⟩ := logsResponse_eq_ok hresponse
  have hserved (h : (tty || wantStdout req.stream || wantStderr req.stream) = true)
      (stdout stderr : Bool) (d : σ) := hdocker.served (hpos h) stdout stderr d
  obtain ⟨out', err', w₁, hlogs⟩ := DockerBackend.exists_logs (w := { daemon := d, timeNs := t })
    hc htty hread.snapshot_eq fun h stdout stderr d => ⟨_, hserved h stdout stderr d⟩
  have hexists : ∃ r', logsResponse ctx _ out' err' tty snapshot = .ok r' := logsResponse_isOk hn
  obtain ⟨r', hr'⟩ := hexists
  refine ⟨r', mem_replies_logs.mpr ⟨_, hreq, hname, w₁, ?_⟩⟩
  exact (run_bind_ok hlogs).trans (ofExcept_eq_ok.mpr ⟨hr', rfl⟩)

end

theorem honoursSince_iff {req : GetLogsRequest} {since : Timestamp} {tty : Bool}
    (hreq : ctx.pb.getLogsRequest raw = .ok { req with since := some since })
    (hplain : ctx.pb.getLogsRequest plain = .ok { req with since := none })
    (hanswered : ∃ r, .ok (.logs r) ∈ replies ctx .logs plain d t)
    (hc : resolved ctx.backend req.name d = some c)
    (htty : DockerBackend.flag c "Config" "Tty" = .ok tty)
    (hdocker : FromSecond ctx c (DockerBackend.asked (effectiveTail ctx.limits req.tailLines))
      since.seconds content) :
    HonoursSince ctx raw d t since ↔
      ((tty || wantStdout req.stream || wantStderr req.stream) = true → 0 < since.seconds) ∧
      ∀ s, s <:+ contentLines ctx.pb content tty (wantStdout req.stream) (wantStderr req.stream) →
        Capped (effectiveTail ctx.limits req.tailLines) ctx.limits.maxLogBytes s →
        ∀ line ∈ s, ¬ InDroppedFraction since line := by
  constructor
  · intro h
    obtain ⟨r, hr⟩ := h.answered
    obtain ⟨hpos, hlong⟩ := longest_of_mem_replies hreq hc htty hdocker hr
    refine ⟨hpos, fun s hs hcapped line hline hdrop => ?_⟩
    obtain ⟨u, hu, hdrop⟩ := hdrop
    have hsuffix : s <:+ r.lines :=
      List.suffix_of_suffix_length_le hs hlong.suffix (hlong.longest s hs hcapped)
    exact h.notBefore r hr line (hsuffix.subset hline) u hu
      (Prod.Lex.toLex_lt_toLex.mpr (.inr hdrop))
  · rintro ⟨hpos, hnone⟩
    refine ⟨exists_reply_of_plain hreq hplain hanswered hc htty hdocker hpos,
      fun r hr line hline u hu hbefore => ?_⟩
    obtain ⟨-, hlong⟩ := longest_of_mem_replies hreq hc htty hdocker hr
    have hle := hdocker.second_le line (hlong.suffix.subset hline) u hu
    exact hnone r.lines hlong.suffix hlong.holds line hline ⟨u, hu, (before_iff_of_le hle).mp hbefore⟩

end

/-! ### Half past a second, and the epoch -/

namespace SinceLog

open TwoStreams

/-- A line is written to stdout or to stderr, at a second. -/
def written : List (Bool × Int × Bytes) :=
  [(true, 1714557601, ascii "2024-05-01T10:00:01Z up"),
   (false, 1714557602, ascii "2024-05-01T10:00:02Z no config"),
   (true, 1714557603, ascii "2024-05-01T10:00:03Z ready")]

def content (since : Option Int) (stdout stderr : Bool) : Bytes :=
  (written.filter fun e => (if e.1 then stdout else stderr) && since.all (· ≤ e.2.1)).flatMap
    (·.2.2 ++ [newline])

def engine : Engine (List Container) where
  __ := host
  logs _ stdout stderr _ since cs :=
    if since.any (· ≤ 0) then
      (.error (.docker .dockerException "since value should be datetime or positive int/float"), cs)
    else (.ok (content since stdout stderr), cs)

/-- Field 3: nothing, or one of three instants. -/
def readSince : Bytes → Except String (Option Timestamp)
  | [] => .ok none
  | [26, 0] => .ok (some ⟨0, 0⟩)
  | [26, 6, 8, 162, 165, 200, 177, 6] => .ok (some ⟨1714557602, 0⟩)
  | [26, 12, 8, 161, 165, 200, 177, 6, 16, 128, 202, 181, 238, 1] => .ok (some ⟨1714557601, 500000000⟩)
  | _ => .error "Error parsing message"

def ctx : Context (List Container) where
  backend := engine
  guard := {}
  pb := { stamped with
    getLogsRequest := fun raw => do
      let name ← readName (raw.take 14)
      let since ← readSince (raw.drop 14)
      return { name, tailLines := 0, since, stream := .unspecified } }

def plain : Bytes := writeName "zenoh-router"
def second : Bytes := plain ++ [26, 6, 8, 162, 165, 200, 177, 6]
def half : Bytes := plain ++ [26, 12, 8, 161, 165, 200, 177, 6, 16, 128, 202, 181, 238, 1]
def epoch : Bytes := plain ++ [26, 0]

def reply : GetLogsResponse where
  name := "zenoh-router"
  id := router.id
  lines := [⟨some ⟨1714557601, 0⟩, .stdout, "up"⟩, ⟨some ⟨1714557602, 0⟩, .stderr, "no config"⟩,
    ⟨some ⟨1714557603, 0⟩, .stdout, "ready"⟩]
  truncated := false
  tailLines := 200

theorem replies_half : replies ctx .logs half [router] 0 = [.ok (.logs reply)] := by
  rfl

theorem replies_epoch : replies ctx .logs epoch [router] 0 = [.err ("failed to read logs: " ++
    "since value should be datetime or positive int/float") .unavailable] := by
  rfl

/-- A line half a second too early is sent, and the epoch is answered with an error. -/
theorem not_honoursSince_half : ¬ HonoursSince ctx half [router] 0 ⟨1714557601, 500000000⟩ ∧
    ¬ HonoursSince ctx epoch [router] 0 ⟨0, 0⟩ := by
  constructor
  · intro h
    have hmem : .ok (.logs reply) ∈ replies ctx .logs half [router] 0 := by
      rw [replies_half]
      exact List.mem_singleton_self _
    apply h.notBefore reply hmem _ List.mem_cons_self ⟨1714557601, 0⟩ rfl
    exact Prod.Lex.toLex_lt_toLex.mpr (.inr ⟨rfl, by decide⟩)
  · intro h
    obtain ⟨r, hr⟩ := h.answered
    rw [replies_epoch, List.mem_singleton] at hr
    cases hr

theorem fromSecond_second : FromSecond ctx router (DockerBackend.asked 200) 1714557602
    (content (some 1714557602)) where
  refused h := absurd h (by decide)
  served _ _ _ _ := rfl
  fromSecond := by
    have hall : ∀ stdout stderr stream,
        (parseLogStream ctx.pb (content (some 1714557602) stdout stderr) stream).all
          (fun line => line.time.all (1714557602 ≤ ·.seconds)) = true := by
      intro stdout stderr stream
      cases stdout <;> cases stderr <;> cases stream <;> decide +kernel
    intro stdout stderr stream line hline u hu
    have hline := List.all_eq_true.mp (hall stdout stderr stream) line hline
    simpa [hu] using hline

def req : GetLogsRequest :=
  { name := "zenoh-router", tailLines := 0, since := none, stream := .unspecified }

theorem honoursSince_second : HonoursSince ctx second [router] 0 ⟨1714557602, 0⟩ := by
  have hreq : ctx.pb.getLogsRequest second = .ok { req with since := some ⟨1714557602, 0⟩ } := rfl
  have hplain : ctx.pb.getLogsRequest plain = .ok { req with since := none } := rfl
  have hanswered : ∃ r, .ok (.logs r) ∈ replies ctx .logs plain [router] 0 :=
    ⟨reply, List.mem_singleton_self _⟩
  have hfrom : FromSecond ctx router (DockerBackend.asked (effectiveTail ctx.limits req.tailLines))
    1714557602 (content (some 1714557602)) := fromSecond_second
  have htty : DockerBackend.flag router "Config" "Tty" = .ok false := rfl
  apply (honoursSince_iff hreq hplain hanswered rfl htty hfrom).mpr
  refine ⟨fun _ => by decide, fun s hs _ line hline hdrop => ?_⟩
  obtain ⟨u, hu, -, hlt⟩ := hdrop
  have hall : (contentLines ctx.pb (content (some 1714557602)) false true true).all
      (fun line => line.time.all (0 ≤ ·.nanos)) = true := by decide +kernel
  have hnanos := List.all_eq_true.mp hall line (hs.subset hline)
  rw [hu] at hnanos
  exact absurd hlt (not_lt.mpr (of_decide_eq_true hnanos))

end SinceLog

end KeelsonDocker
