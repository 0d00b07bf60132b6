import KeelsonDocker.Verify.ChangeReplies
import KeelsonDocker.Verify.CliRuns
import KeelsonDocker.Verify.SessionAudit
import KeelsonDocker.Verify.StatusDigest

/-!
# What an operator may conclude

A command of the client is one query, which may get lost on its way, or its answer. Whatever happens, it
makes the daemon change at most the one container it asked for; if it prints that it did, just that change
was made, and if it ends in a refusal, none was (`Link.verdicts`).
-/

namespace KeelsonDocker

open Effect

variable {σ : Type}

/-! ### Client and responder -/

namespace Command

/-- The change a command asks for, with the name it carries. -/
def mutation : Command → Option (Mutation × String)
  | start name => some (.act .start, name)
  | stop name _ => some (.act .stop, name)
  | restart name _ => some (.act .restart, name)
  | remove name _ _ => some (.remove, name)
  | list .. | logs .. => none

def force : Command → Bool
  | remove _ force _ => force
  | _ => false

end Command

/-- `ErrorResponse.Code.Name` of the codes the package sends. -/
def Code.word : Code → String
  | .invalidArgument => "INVALID_ARGUMENT"
  | .notFound => "NOT_FOUND"
  | .permissionDenied => "PERMISSION_DENIED"
  | .invalidState => "INVALID_STATE"
  | .unavailable => "UNAVAILABLE"
  | .ioFailure => "IO_FAILURE"

/-- What the responder's end of the wire makes of its replies. -/
structure ServerProtobuf where
  response : Response → Bytes
  errorResponse : (description : String) → Code → Bytes
  /-- What `serve_rpc` replies for an exception. -/
  internal : Exn → Bytes

/-- A responder and a client of it. -/
structure Link (σ : Type) where
  ctx : Context σ
  server : ServerProtobuf
  client : ClientProtobuf
  keyText : RpcKey → String

/-- What the client hears of its query. -/
inductive Heard
  | replies
  | nothing
  /-- An error of the transport itself. -/
  | transport (payload : Bytes)

/-- One run of the client: its arguments, whether a session opens, whether its query reaches the responder,
and what it hears; and what has happened to the daemon before. -/
structure Invocation (σ : Type) where
  args : CliArgs
  openSession : Except Exn Unit := .ok ()
  delivered : Bool := true
  heard : Heard := .replies
  turn : σ → σ := id
  timeNs : Int := 0

/-- How a run of the client ends; without an exception, its exit status is 0. -/
structure Ending where
  stdout : List String
  raised : Option AppExn

def Ending.of {W : Type} : EStateM.Result AppExn (CliWorld W) Unit → Ending × W
  | .ok _ w => (⟨w.stdout, none⟩, w.beyond)
  | .error e w => (⟨w.stdout, some e⟩, w.beyond)

theorem Ending.of_snd {W : Type} (x : Cli W Unit) (w : CliWorld W) :
    (Ending.of (x w)).2 = (after x w).beyond := by
  unfold after
  cases x w <;> rfl

namespace Link

variable (link : Link σ)

def encode : Reply → QueryReply
  | .ok response => .ok (link.server.response response)
  | .err description code => .err (link.server.errorResponse description code)

/-- `serve_rpc`: the handler's replies, and one of its own for what the handler raises. -/
def serve (p : Procedure) (raw : Bytes) (w : World σ) : List QueryReply × World σ :=
  match build link.ctx p raw w with
  | .ok _ w' => ((w'.replies.drop w.replies.length).map link.encode, w')
  | .error e w' =>
    ((w'.replies.drop w.replies.length).map link.encode ++ [.err (link.server.internal e)], w')

def host (i : Invocation σ) : CliHost (World σ) where
  pb := link.client
  keyText := link.keyText
  openSession := i.openSession
  get key payload w :=
    let (replies, w') := if i.delivered then link.serve key.procedure payload w else ([], w)
    match i.heard with
    | .replies => (replies, w')
    | .nothing => ([], w')
    | .transport payload => ([.err payload], w')

/-- The responder as an invocation finds it. -/
def found (i : Invocation σ) (w : World σ) : World σ :=
  { w with daemon := i.turn w.daemon, timeNs := i.timeNs }

def invoke (i : Invocation σ) (w : World σ) : Ending × World σ :=
  Ending.of (Cli.main (link.host i) i.args { beyond := found i w })

/-- One run of the client after the other: the daemon each found, its command, and how it ended. -/
def session (w : World σ) : List (Invocation σ) → List (σ × Command × Ending) × World σ
  | [] => ([], w)
  | i :: is =>
    let (ending, w') := link.invoke i w
    let (accounts, w'') := session w' is
    ((i.turn w.daemon, i.args.command, ending) :: accounts, w'')

/-- What is written on one end of the wire is read on the other. -/
structure Speaks : Prop where
  start : ∀ r, link.ctx.pb.startContainerRequest (link.client.startContainerRequest r) = .ok r
  stop : ∀ r, r.timeoutS < 2 ^ 32 →
    link.ctx.pb.stopContainerRequest (link.client.stopContainerRequest r) = .ok r
  restart : ∀ r, r.timeoutS < 2 ^ 32 →
    link.ctx.pb.restartContainerRequest (link.client.restartContainerRequest r) = .ok r
  remove : ∀ r, link.ctx.pb.removeContainerRequest (link.client.removeContainerRequest r) = .ok r
  action : ∀ s i, info link.ctx s = .ok i →
    link.client.containerActionResponse (link.server.response (.action ⟨i⟩)) = .ok ⟨i⟩
  removed : ∀ r, link.client.removeContainerResponse (link.server.response (.remove r)) = .ok r
  error : ∀ description code, ∃ n, link.client.codeName n = some code.word ∧
    link.client.errorResponse (link.server.errorResponse description code) = .ok (n, description)
  internal : ∀ e, ∃ n description, link.client.codeName n = some "INTERNAL" ∧
    link.client.errorResponse (link.server.internal e) = .ok (n, description)

/-- What the transport says of its own is no `ErrorResponse`. -/
def Plain (i : Invocation σ) : Prop :=
  ∀ payload, i.heard = .transport payload → ∀ n description name,
    link.client.errorResponse payload = .ok (n, description) → link.client.codeName n ≠ some name

end Link

/-- What a success prints of a change. -/
def report : Mutation → Response → String
  | .act verb, .action r => Cli.actionLine verb r
  | .remove, .remove r => Cli.removeLine r
  | _, _ => ""

/-- What an ending tells of the changes a command made, of a daemon it found in the state `d`. -/
structure Verdict (ctx : Context σ) (d : σ) (command : Command) (ending : Ending)
    (changes : List (Mutation × Container)) : Prop where
  once : changes.length ≤ 1
  /-- A change is the one asked for, of the container of that name, and the guard lets it through. -/
  asked : ∀ m c, (m, c) ∈ changes → ∃ name, command.mutation = some (m, name) ∧ name ≠ "" ∧
    ctx.guard.letsThrough m name = true ∧ resolved ctx.backend name d = some c ∧
    goesAhead m command.force c = true
  /-- A success was just that change, and says so. -/
  done : ending.raised = none → ∀ m name, command.mutation = some (m, name) → ∃ c response,
    changes = [(m, c)] ∧ Reports ctx m c response ∧ ending.stdout = [report m response]
  /-- A refusal was none. -/
  refused : ∀ message (code : Code), ending.raised = some (.exit message) → code.refusal = true →
    ("ERROR " ++ code.word ++ ": ").toList <+: message.toList → changes = []

/-! ### What the daemon is made to do -/

/-- The changes of a command whose request reaches the responder. -/
def Command.changes (ctx : Context σ) (command : Command) (raw : Bytes) (d : σ) :
    List (Mutation × Container) :=
  match command.mutation with
  | some (m, _) => (target ctx m raw d).toList.map (Prod.mk m)
  | none => []

theorem Command.procedure_of_mutation {command : Command} {m : Mutation} {name : String}
    (h : command.mutation = some (m, name)) : command.procedure = m.procedure := by
  cases command <;> cases h <;> rfl

theorem adds_build (ctx : Context σ) (command : Command) (raw : Bytes) (w : World σ) :
    Adds World.mutations (build ctx command.procedure raw) w (command.changes ctx raw w.daemon) := by
  cases command with
  | list => exact adds_guarded ((silent_handleList ctx raw).adds w)
  | logs => exact adds_guarded ((silent_handleLogs ctx raw).adds w)
  | start => exact adds_guarded (adds_handleAction ctx .start raw w)
  | stop => exact adds_guarded (adds_handleAction ctx .stop raw w)
  | restart => exact adds_guarded (adds_handleAction ctx .restart raw w)
  | remove => exact adds_guarded (adds_handleRemove ctx raw w)

theorem mem_target {ctx : Context σ} {m : Mutation} {raw : Bytes} {d : σ} {c : Container} {name : String}
    {force : Bool} (hcarried : carried ctx.pb m raw = some (name, force))
    (h : target ctx m raw d = some c) : name ≠ "" ∧ ctx.guard.letsThrough m name = true ∧
      resolved ctx.backend name d = some c ∧ goesAhead m force c = true := by
  simp only [target, hcarried, Option.bind_eq_bind, Option.bind_some] at h
  split at h
  · cases h
  · rename_i hpass
    rw [Bool.or_eq_true, not_or, decide_eq_true_eq, Bool.not_eq_true', Bool.not_eq_false] at hpass
    exact ⟨hpass.1, hpass.2, Option.filter_eq_some_iff.mp h⟩

namespace Link

variable {link : Link σ} {i : Invocation σ} {w beyond : World σ} {raw payload : Bytes}
  {rest : List QueryReply} {key : RpcKey}

theorem uint32_lt {n m : Int} (h : uint32 n = .ok m) : m.toNat < 2 ^ 32 := by
  have hm := (assignInt_eq_ok.mp h)
  obtain ⟨⟨hlow, hhigh⟩, rfl⟩ := hm
  omega

/-- The responder reads the name, and whether force was asked for. -/
theorem Speaks.carried (h : link.Speaks) {command : Command} {m : Mutation} {name : String}
    (hm : command.mutation = some (m, name)) (hpayload : command.payload link.client = .ok payload) :
    KeelsonDocker.carried link.ctx.pb m payload = some (name, command.force) := by
  cases command with
  | list | logs => cases hm
  | start =>
    cases hm
    cases hpayload
    rw [KeelsonDocker.carried, actionRequest, h.start]
    rfl
  | remove =>
    cases hm
    cases hpayload
    rw [KeelsonDocker.carried, h.remove]
    rfl
  | stop name timeoutS =>
    cases hm
    obtain ⟨t, ht, hpayload⟩ := bind_eq_ok.mp hpayload
    cases hpayload
    rw [KeelsonDocker.carried, actionRequest, h.stop _ (uint32_lt ht)]
    rfl
  | restart name timeoutS =>
    cases hm
    obtain ⟨t, ht, hpayload⟩ := bind_eq_ok.mp hpayload
    cases hpayload
    rw [KeelsonDocker.carried, actionRequest, h.restart _ (uint32_lt ht)]
    rfl

theorem serve_ok {p : Procedure} {w' : World σ} (h : build link.ctx p raw w = .ok () w') :
    ∃ reply, w'.replies = w.replies ++ [reply] ∧ link.serve p raw w = ([link.encode reply], w') := by
  obtain ⟨reply, hreply⟩ := (once_build p).ok h
  refine ⟨reply, hreply, ?_⟩
  rw [serve, h]
  dsimp only
  rw [hreply, List.drop_left, List.map_singleton]

theorem serve_error {p : Procedure} {e : Exn} {w' : World σ} (h : build link.ctx p raw w = .error e w') :
    link.serve p raw w = ([.err (link.server.internal e)], w') := by
  have hreplies := (once_build p).error h
  rw [serve, h]
  dsimp only
  rw [hreplies, List.drop_length, List.map_nil, List.nil_append]

theorem serve_snd (p : Procedure) (raw : Bytes) (w : World σ) :
    (link.serve p raw w).2 = after (build link.ctx p raw) w := by
  cases h : build link.ctx p raw w with
  | ok u w' =>
    obtain ⟨reply, -, hserve⟩ := serve_ok h
    rw [hserve, after_ok h]
  | error e w' => rw [serve_error h, after_error h]

theorem get_snd : ((link.host i).get key payload w).2 =
    if i.delivered then after (build link.ctx key.procedure payload) w else w := by
  cases hdelivered : i.delivered <;> cases hheard : i.heard <;>
    simp [host, hdelivered, hheard, serve_snd]

/-- Where a success comes from. -/
theorem get_ok (h : (link.host i).get key payload w = (.ok raw :: rest, beyond)) :
    i.delivered = true ∧ ∃ response, raw = link.server.response response ∧
      build link.ctx key.procedure payload w = .ok () beyond ∧
      beyond.replies = w.replies ++ [.ok response] := by
  cases hheard : i.heard with
  | nothing => simp [host, hheard] at h
  | transport => simp [host, hheard] at h
  | replies =>
    cases hdelivered : i.delivered with
    | false => simp [host, hheard, hdelivered] at h
    | true =>
      have hserve : link.serve key.procedure payload w = (.ok raw :: rest, beyond) := by
        simpa [host, hheard, hdelivered] using h
      refine ⟨rfl, ?_⟩
      cases hrun : build link.ctx key.procedure payload w with
      | error e w' => cases (serve_error hrun).symm.trans hserve
      | ok u w' =>
        obtain ⟨reply, hreply, hw'⟩ := serve_ok hrun
        cases reply with
        | err => cases hw'.symm.trans hserve
        | ok response =>
          cases hw'.symm.trans hserve
          exact ⟨response, rfl, rfl, hreply⟩

/-- Where an error comes from: the handler, `serve_rpc` or the transport. -/
inductive Failure (link : Link σ) (i : Invocation σ) (p : Procedure) (payload : Bytes) (w : World σ) :
    Bytes → World σ → Prop
  | handler (description : String) (code : Code) (beyond : World σ) (hdelivered : i.delivered = true)
      (hrun : build link.ctx p payload w = .ok () beyond)
      (hreply : beyond.replies = w.replies ++ [.err description code]) :
      Failure link i p payload w (link.server.errorResponse description code) beyond
  | internal (e : Exn) (beyond : World σ) : Failure link i p payload w (link.server.internal e) beyond
  | transport (raw : Bytes) (beyond : World σ) (hheard : i.heard = .transport raw) :
      Failure link i p payload w raw beyond

theorem get_err (h : (link.host i).get key payload w = (.err raw :: rest, beyond)) :
    Failure link i key.procedure payload w raw beyond := by
  cases hheard : i.heard with
  | nothing => simp [host, hheard] at h
  | transport raw' =>
    obtain rfl : raw' = raw := by simpa [host, hheard] using congrArg (List.head? ∘ Prod.fst) h
    exact .transport raw' beyond hheard
  | replies =>
    cases hdelivered : i.delivered with
    | false => simp [host, hheard, hdelivered] at h
    | true =>
      have hserve : link.serve key.procedure payload w = (.err raw :: rest, beyond) := by
        simpa [host, hheard, hdelivered] using h
      cases hrun : build link.ctx key.procedure payload w with
      | error e w' =>
        cases (serve_error hrun).symm.trans hserve
        exact .internal e beyond
      | ok u w' =>
        obtain ⟨reply, hreply, hw'⟩ := serve_ok hrun
        cases reply with
        | ok => cases hw'.symm.trans hserve
        | err description code =>
          cases hw'.symm.trans hserve
          exact .handler description code beyond hdelivered hrun hreply

end Link

/-! ### What the messages tell apart -/

theorem eq_of_colon {a b x y : List Char} (ha : ':' ∉ a) (hb : ':' ∉ b)
    (h : a ++ ':' :: x <+: b ++ ':' :: y) : a = b := by
  obtain ⟨z, hz⟩ := h
  have hword (l rest : List Char) (hl : ':' ∉ l) :
      (l ++ ':' :: rest).takeWhile (· != ':') = l := by
    rw [List.takeWhile_append_of_pos fun c hc => by
      simpa using fun hcolon : c = ':' => hl (hcolon ▸ hc)]
    simp
  rw [List.append_assoc, List.cons_append] at hz
  rw [← hword a (x ++ z) ha, hz, hword b y hb]

/-- The word of an error message is the one it starts with. -/
theorem word_eq {a b description : String} (ha : ':' ∉ a.toList) (hb : ':' ∉ b.toList)
    (h : ("ERROR " ++ a ++ ": ").toList <+: ("ERROR " ++ b ++ ": " ++ description).toList) : a = b := by
  have h' : "ERROR ".toList ++ (a.toList ++ ':' :: [' ']) <+:
      "ERROR ".toList ++ (b.toList ++ ':' :: ' ' :: description.toList) := by
    simpa [String.toList_append, List.append_assoc] using h
  exact String.toList_inj.mp (eq_of_colon ha hb ((List.prefix_append_right_inj _).mp h'))

theorem Code.colon_notMem_word (code : Code) : ':' ∉ code.word.toList := by
  cases code <;> decide

theorem Code.word_injective : Function.Injective Code.word := by
  intro a b h
  cases a <;> cases b <;> first | rfl | exact absurd h (by decide)

/-! ### What an operator may conclude -/

namespace Link

variable {link : Link σ} {i : Invocation σ} {w beyond : World σ} {raw payload : Bytes}
  {replies : List QueryReply}

/-- The changes of an invocation whose query carries `payload`. -/
def changes (link : Link σ) (i : Invocation σ) (payload : Bytes) (d : σ) : List (Mutation × Container) :=
  if i.delivered then i.args.command.changes link.ctx payload d else []

theorem mutations_get
    (h : (link.host i).get { i.args with procedure := i.args.command.procedure } payload (found i w) =
      (replies, beyond)) :
    beyond.mutations = w.mutations ++ link.changes i payload (i.turn w.daemon) := by
  have hsnd : beyond = if i.delivered then
      after (build link.ctx i.args.command.procedure payload) (found i w) else found i w :=
    (congrArg Prod.snd h).symm.trans get_snd
  cases hdelivered : i.delivered with
  | false =>
    rw [hsnd, hdelivered, changes, hdelivered]
    exact (List.append_nil _).symm
  | true =>
    rw [hsnd, hdelivered, changes, hdelivered]
    exact adds_build link.ctx i.args.command payload (found i w)

theorem mem_changes {d : σ} {change : Mutation × Container} (h : change ∈ link.changes i payload d) :
    ∃ m name, i.args.command.mutation = some (m, name) ∧ target link.ctx m payload d = some change.2 ∧
      change.1 = m := by
  unfold changes at h
  split at h
  · unfold Command.changes at h
    split at h
    · rename_i m name hm
      obtain ⟨c, hc, rfl⟩ := List.mem_map.mp h
      exact ⟨m, name, hm, Option.mem_toList.mp hc, rfl⟩
    · cases h
  · cases h

theorem length_changes_le {d : σ} : (link.changes i payload d).length ≤ 1 := by
  unfold changes
  split
  · unfold Command.changes
    split
    · rw [List.length_map]
      exact Option.length_toList_le
    · exact Nat.zero_le 1
  · exact Nat.zero_le 1

theorem changes_of_target {m : Mutation} {name : String} {d : σ} {c : Container}
    (hdelivered : i.delivered = true) (hm : i.args.command.mutation = some (m, name))
    (h : target link.ctx m payload d = some c) : link.changes i payload d = [(m, c)] := by
  rw [changes, hdelivered, if_pos rfl, Command.changes, hm]
  dsimp only
  rw [h]
  rfl

/-- A verdict on a query that was sent, where the client ends with an exception. -/
theorem verdict_of_raised (hspeaks : link.Speaks) {d : σ} {ending : Ending} {e : AppExn}
    (hpayload : i.args.command.payload link.client = .ok payload) (hraised : ending.raised = some e)
    (hrefused : ∀ message (code : Code), e = .exit message → code.refusal = true →
      ("ERROR " ++ code.word ++ ": ").toList <+: message.toList → link.changes i payload d = []) :
    Verdict link.ctx d i.args.command ending (link.changes i payload d) where
  once := length_changes_le
  asked m c h := by
    obtain ⟨m', name, hm, htarget, rfl⟩ := mem_changes h
    exact ⟨name, hm, mem_target (hspeaks.carried hm hpayload) htarget⟩
  done h := absurd (h.symm.trans hraised) nofun
  refused message code h := hrefused message code (Option.some.inj (hraised.symm.trans h))

theorem refused_of_failure (hspeaks : link.Speaks) (hE : Foreign link.ctx.backend) (hplain : link.Plain i)
    {code : Code} (hrefusal : code.refusal = true)
    (h : Failure link i i.args.command.procedure payload (found i w) raw beyond)
    (hword : ("ERROR " ++ code.word ++ ": ").toList <+: (Cli.describeError link.client raw).toList) :
    link.changes i payload (i.turn w.daemon) = [] := by
  cases h with
  | handler description code' _ hdelivered hrun hreply =>
    obtain ⟨n, hname, hdecode⟩ := hspeaks.error description code'
    have hmessage : Cli.describeError link.client (link.server.errorResponse description code') =
        "ERROR " ++ code'.word ++ ": " ++ description := by
      simp only [Cli.describeError, hdecode, hname]
    rw [hmessage] at hword
    obtain rfl := Code.word_injective (word_eq code.colon_notMem_word code'.colon_notMem_word hword)
    rw [changes, if_pos hdelivered, Command.changes]
    cases hm : i.args.command.mutation with
    | none => rfl
    | some asked =>
      obtain ⟨m, name⟩ := asked
      rw [Command.procedure_of_mutation hm] at hrun
      cases answered_of_build hE hrun with
      | done c response hreply' => cases (List.append_cancel_left (hreply.symm.trans hreply'))
      | failed description' code' hreply' hnone =>
        cases List.append_cancel_left (hreply.symm.trans hreply')
        have htarget : target link.ctx m payload (i.turn w.daemon) = none := hnone hrefusal
        dsimp only
        rw [htarget]
        rfl
  | internal e =>
    obtain ⟨n, description, hname, hdecode⟩ := hspeaks.internal e
    have hmessage : Cli.describeError link.client (link.server.internal e) =
        "ERROR " ++ "INTERNAL" ++ ": " ++ description := by
      simp only [Cli.describeError, hdecode, hname]
    rw [hmessage] at hword
    have hinternal := word_eq code.colon_notMem_word (by decide) hword
    cases code <;> exact absurd hinternal (by decide)
  | transport _ _ hheard =>
    have hmessage : Cli.describeError link.client raw =
        "ERROR " ++ "(transport)" ++ ": " ++ decodeReplace raw := by
      unfold Cli.describeError
      cases hdecode : link.client.errorResponse raw with
      | error e => rfl
      | ok decoded =>
        obtain ⟨n, description⟩ := decoded
        cases hname : link.client.codeName n with
        | none => simp only [hname]; rfl
        | some name => exact absurd hname (hplain raw hheard n description name hdecode)
    rw [hmessage] at hword
    have htransport := word_eq code.colon_notMem_word (by decide) hword
    cases code <;> exact absurd htransport (by decide)

/-- What `main` makes of a success that reports a change. -/
theorem finish_report (hspeaks : link.Speaks) {command : Command} {m : Mutation} {name : String}
    {c : Container} {response : Response} {cw : CliWorld (World σ)}
    (hm : command.mutation = some (m, name)) (hreports : Reports link.ctx m c response) :
    Cli.finish link.client command (link.server.response response) cw =
      .ok () { cw with stdout := cw.stdout ++ [report m response] } := by
  have haction {verb : Verb} (hreports : Reports link.ctx (.act verb) c response) :
      (Cli.decoded (link.client.containerActionResponse (link.server.response response)) >>=
        fun r => Cli.print (Cli.actionLine verb r)) cw =
        .ok () { cw with stdout := cw.stdout ++ [report (.act verb) response] } := by
    cases response with
    | action r =>
      obtain ⟨-, s, -, -, -, hinfo⟩ := hreports
      have hread := hspeaks.action s r.container hinfo
      rw [hread]
      rfl
    | _ => exact hreports.elim
  cases command with
  | list | logs => cases hm
  | start | stop | restart =>
    cases hm
    exact haction hreports
  | remove =>
    cases hm
    cases response with
    | remove r =>
      rw [Cli.finish, hspeaks.removed]
      rfl
    | _ => exact hreports.elim

theorem verdict (hspeaks : link.Speaks) (hE : Foreign link.ctx.backend) (hplain : link.Plain i)
    (w : World σ) : ∃ changes, (link.invoke i w).2.mutations = w.mutations ++ changes ∧
      Verdict link.ctx (i.turn w.daemon) i.args.command (link.invoke i w).1 changes := by
  have hran := Cli.ran_main (link.host i) i.args { beyond := found i w }
  unfold invoke
  generalize Cli.main (link.host i) i.args { beyond := found i w } = result at hran
  cases hran with
  | unsent e =>
    refine ⟨[], (List.append_nil _).symm, Nat.zero_le 1, nofun, nofun, fun message code h => ?_⟩
    cases h
  | unanswered payload beyond text hpayload hget =>
    refine ⟨_, mutations_get hget, verdict_of_raised hspeaks hpayload rfl fun message code h _ hword => ?_⟩
    cases h
    simp [String.toList_append] at hword
  | refused payload beyond raw rest hpayload hget =>
    refine ⟨_, mutations_get hget, verdict_of_raised hspeaks hpayload rfl fun message code h hr hword => ?_⟩
    cases h
    exact refused_of_failure hspeaks hE hplain hr (get_err hget) hword
  | answered payload beyond raw rest hpayload hget =>
    refine ⟨link.changes i payload (i.turn w.daemon), ?_, ?_⟩
    · rw [Ending.of_snd, Cli.local_finish]
      exact mutations_get hget
    obtain ⟨hdelivered, response, rfl, hrun, hreply⟩ := get_ok hget
    cases hm : i.args.command.mutation with
    | none =>
      have hnone : link.changes i payload (i.turn w.daemon) = [] := by
        rw [changes, if_pos hdelivered, Command.changes, hm]
      rw [hnone]
      exact ⟨Nat.zero_le 1, nofun, fun _ m name hm' => (nomatch hm.symm.trans hm'), fun _ _ _ _ _ => rfl⟩
    | some asked =>
      obtain ⟨m, name⟩ := asked
      have hrun' : build link.ctx m.procedure payload (found i w) = .ok () beyond :=
        Command.procedure_of_mutation hm ▸ hrun
      cases answered_of_build hE hrun' with
      | failed description code hreply' => cases List.append_cancel_left (hreply.symm.trans hreply')
      | done c response' hreply' htarget hreports =>
        cases List.append_cancel_left (hreply.symm.trans hreply')
        have hfinish : Cli.finish (link.host i).pb i.args.command (link.server.response response)
            { beyond := beyond } = .ok () { beyond := beyond, stdout := [report m response] } :=
          finish_report hspeaks hm hreports
        have hchanges : link.changes i payload (i.turn w.daemon) = [(m, c)] :=
          changes_of_target hdelivered hm htarget
        rw [hfinish, hchanges]
        refine ⟨Nat.le_refl 1, ?_, ?_, nofun⟩
        · intro m' c' h
          cases List.mem_singleton.mp h
          exact ⟨name, hm, mem_target (hspeaks.carried hm hpayload) htarget⟩
        · intro _ m' name' hm'
          cases hm.symm.trans hm'
          exact ⟨c, response, rfl, hreports, rfl⟩

/-- **What an operator may conclude.** Of any commands one after the other, each query or its answer lost
or not, and whatever happens to the daemon in between and during each of them: the changes the daemon is
asked for are those of the commands, in their order, and the ending of each tells its own (`Verdict`). -/
theorem verdicts (hspeaks : link.Speaks) (hE : Foreign link.ctx.backend) {invocations : List (Invocation σ)}
    (hplain : ∀ i ∈ invocations, link.Plain i) (w : World σ) :
    ∃ changes : List (List (Mutation × Container)),
      (link.session w invocations).2.mutations = w.mutations ++ changes.flatten ∧
      List.Forall₂ (fun account l => Verdict link.ctx account.1 account.2.1 account.2.2 l)
        (link.session w invocations).1 changes := by
  induction invocations generalizing w with
  | nil => exact ⟨[], (List.append_nil _).symm, .nil⟩
  | cons i is ih =>
    obtain ⟨l, hl, hverdict⟩ := verdict hspeaks hE (hplain i List.mem_cons_self) w
    obtain ⟨ls, hls, hverdicts⟩ := ih (fun i' hi' => hplain i' (List.mem_cons_of_mem i hi'))
      (link.invoke i w).2
    refine ⟨l :: ls, ?_, .cons hverdict hverdicts⟩
    exact hls.trans (by rw [hl, List.flatten_cons, List.append_assoc])

end Link

/-! ### A terminal -/

namespace Terminal

open Wire

/-- `FromString` on what `write` makes of the messages that fit. -/
noncomputable def readBack {M : Type} (Fits : M → Prop) (write : M → Bytes) (raw : Bytes) : Except String M :=
  open Classical in
  if h : ∃ m, Fits m ∧ write m = raw then .ok h.choose else .error "Error parsing message"

theorem readBack_write {M : Type} {Fits : M → Prop} {write : M → Bytes}
    (hinj : ∀ m m', Fits m → Fits m' → write m = write m' → m = m') {m : M} (hm : Fits m) :
    readBack Fits write (write m) = .ok m := by
  have h : ∃ m', Fits m' ∧ write m' = write m := ⟨m, hm, rfl⟩
  rw [readBack, dif_pos h, hinj _ _ h.choose_spec.1 hm h.choose_spec.2]

def startRequest : Message StartContainerRequest where
  members := [.text 1 (·.name)]
  numbers := by decide
  ext := by
    rintro ⟨name⟩ ⟨name'⟩ h
    simpa [Member.text] using h

def stopRequest : Message StopContainerRequest where
  members := [.text 1 (·.name), .count 2 (·.timeoutS)]
  numbers := by decide
  ext := by
    rintro ⟨name, timeoutS⟩ ⟨name', timeoutS'⟩ h
    simpa [Member.text, Member.count] using h

def restartRequest : Message RestartContainerRequest where
  members := [.text 1 (·.name), .count 2 (·.timeoutS)]
  numbers := by decide
  ext := by
    rintro ⟨name, timeoutS⟩ ⟨name', timeoutS'⟩ h
    simpa [Member.text, Member.count] using h

def removeRequest : Message RemoveContainerRequest where
  members := [.text 1 (·.name), .flag 2 (·.force), .flag 3 (·.removeVolumes)]
  numbers := by decide
  ext := by
    rintro ⟨name, force, removeVolumes⟩ ⟨name', force', removeVolumes'⟩ h
    simpa [Member.text, Member.flag] using h

def removeResponse : Message RemoveContainerResponse where
  members := [.text 1 (·.name), .text 2 (·.id), .flag 3 (·.forceApplied)]
  numbers := by decide
  ext := by
    rintro ⟨name, id, forceApplied⟩ ⟨name', id', forceApplied'⟩ h
    simpa [Member.text, Member.flag] using h

/-- A code and a description. -/
def errorMessage : Message (Nat × String) where
  members := [.count 1 (·.1), .text 2 (·.2)]
  numbers := by decide
  ext := by
    rintro ⟨code, description⟩ ⟨code', description'⟩ h
    simpa [Member.text, Member.count] using h

def actionSchema : Schema ContainerActionResponse :=
  [(1, fun r => some (ofMessage Proto.ContainerInfo.schema r.container.proto))]

theorem action_injective {r r' : ContainerActionResponse} (hr : r.container.Fits) (hr' : r'.container.Fits)
    (h : serialize actionSchema r = serialize actionSchema r') : r = r' := by
  have hget := get_eq_of_serialize_eq (by decide) h _ (List.mem_of_getElem? (i := 0) rfl)
  have hinfo : Function.Injective (serialize Proto.ContainerInfo.schema) := fun i i' hi =>
    Proto.ContainerInfo.eq_of_records_eq (encode_injective hi)
  have hproto := ofMessage_injective hinfo (Option.some.inj hget)
  cases r
  cases r'
  exact congrArg ContainerActionResponse.mk (ContainerInfo.proto_inj hr hr' hproto)

noncomputable def requests : Protobuf where
  listContainersRequest _ := .error "Error parsing message"
  getLogsRequest _ := .error "Error parsing message"
  startContainerRequest := readBack (fun _ => True) (serialize startRequest.schema)
  stopContainerRequest := readBack (fun _ => True) (serialize stopRequest.schema)
  restartContainerRequest := readBack (fun _ => True) (serialize restartRequest.schema)
  removeContainerRequest := readBack (fun _ => True) (serialize removeRequest.schema)
  timestampFromJson _ := none

def number : Code → Nat
  | .invalidArgument => 1
  | .notFound => 2
  | .permissionDenied => 3
  | .invalidState => 4
  | .unavailable => 5
  | .ioFailure => 6

def responses : ServerProtobuf where
  response
    | .action r => serialize actionSchema r
    | .remove r => serialize removeResponse.schema r
    | _ => []
  errorResponse description code := serialize errorMessage.schema (number code, description)
  internal _ := serialize errorMessage.schema (7, "internal error")

noncomputable def terminal : ClientProtobuf where
  listContainersRequest _ := []
  getLogsRequest _ := []
  startContainerRequest := serialize startRequest.schema
  stopContainerRequest := serialize stopRequest.schema
  restartContainerRequest := serialize restartRequest.schema
  removeContainerRequest := serialize removeRequest.schema
  listContainersResponse _ := .error "Error parsing message"
  getLogsResponse _ := .error "Error parsing message"
  containerActionResponse := readBack (·.container.Fits) (serialize actionSchema)
  removeContainerResponse := readBack (fun _ => True) (serialize removeResponse.schema)
  errorResponse raw := do
    let (code, description) ← readBack (fun _ => True) (serialize errorMessage.schema) raw
    return (code, description)
  codeName n := ["INVALID_ARGUMENT", "NOT_FOUND", "PERMISSION_DENIED", "INVALID_STATE", "UNAVAILABLE",
    "IO_FAILURE", "INTERNAL"][n.toNat - 1]?
  isoformat _ := .error (.py .valueError)

/-- A daemon with the router alone, which it always finds running. -/
def engine : Engine (List Container) := { host with reload := fun _ cs => (.ok router, cs) }

noncomputable def link : Link (List Container) where
  ctx := { backend := engine, guard := RouterSession.guard, pb := requests }
  server := responses
  client := terminal
  keyText key := "keelson/@v0/" ++ key.entityId ++ "/@rpc/container_control/v1/" ++ key.sourceId

theorem foreign_engine : Foreign engine where
  act := nofun
  reload := nofun
  image h := by
    cases h
    exact nofun
  remove := nofun

theorem no_times : ∀ value t, requests.timestampFromJson value = some t → t.Fits := nofun

theorem errorResponse_write (e : Nat × String) :
    terminal.errorResponse (serialize errorMessage.schema e) = .ok ((e.1 : Int), e.2) := by
  have hread : readBack (fun _ => True) (serialize errorMessage.schema)
      (serialize errorMessage.schema e) = .ok e :=
    readBack_write (fun _ _ _ _ h => errorMessage.serialize_injective h) trivial
  simp only [terminal, hread]
  rfl

theorem link_speaks : link.Speaks where
  start r := readBack_write (fun _ _ _ _ h => startRequest.serialize_injective h) trivial
  stop r _ := readBack_write (fun _ _ _ _ h => stopRequest.serialize_injective h) trivial
  restart r _ := readBack_write (fun _ _ _ _ h => restartRequest.serialize_injective h) trivial
  remove r := readBack_write (fun _ _ _ _ h => removeRequest.serialize_injective h) trivial
  action s i h := readBack_write (fun _ _ => action_injective)
    (buildContainerInfo_fits no_times s _ _ i h)
  removed r := readBack_write (fun _ _ _ _ h => removeResponse.serialize_injective h) trivial
  error description code :=
    ⟨number code, by cases code <;> rfl, errorResponse_write (number code, description)⟩
  internal e := ⟨7, "internal error", rfl, errorResponse_write (7, "internal error")⟩

def args (command : Command) : CliArgs where
  realm := "keelson"
  entityId := "vessel"
  sourceId := "docker"
  command := command

/-- The router as the responder describes it. -/
def routerInfo : ContainerInfo where
  name := "zenoh-router"
  id := router.id
  image := ""
  state := containerState "running"
  rawState := "running"
  createdAt := none
  startedAt := none
  finishedAt := none
  exitCode := none
  restartPolicy := .unspecified
  restartPolicyMaxRetries := 0
  restartCount := 0
  health := .none
  controllable := true
  composeProject := ""
  composeService := ""
  removable := false

/-- The responder once it has restarted the router. -/
def restarted : World (List Container) where
  daemon := [router]
  calls := [.fromEnv, .get "zenoh-router", .act .restart router (some 10), .reload router]
  replies := [.ok (.action ⟨routerInfo⟩)]

theorem build_restart : build link.ctx .restart (serialize restartRequest.schema ⟨"zenoh-router", 0⟩)
    { daemon := [router] } = .ok () restarted := by
  have hread : actionRequest link.ctx.pb .restart (serialize restartRequest.schema ⟨"zenoh-router", 0⟩) =
      .ok ⟨"zenoh-router", 0⟩ :=
    congrArg (Except.map fun r : RestartContainerRequest => ({ name := r.name, timeoutS := r.timeoutS } :
      ActionRequest)) (link_speaks.restart ⟨"zenoh-router", 0⟩ (by decide))
  have hasks : asks link.ctx .restart (serialize restartRequest.schema ⟨"zenoh-router", 0⟩) =
      some ("zenoh-router", some 10) := by
    unfold asks
    rw [hread]
    rfl
  have hrun : handleAction .restart link.ctx (serialize restartRequest.schema ⟨"zenoh-router", 0⟩)
      { daemon := [router] } = .ok () restarted := by
    rw [handleAction_eq hasks]
    rfl
  exact run_tryCatch_ok hrun

/-- `restart --name zenoh-router` -/
def first : Invocation (List Container) := { args := args (.restart "zenoh-router" 0) }

theorem invoke_first : link.invoke first { daemon := [router] } =
    (⟨["restart zenoh-router: now running (restart_count=0)"], none⟩, restarted) := by
  have hserve : link.serve .restart (serialize restartRequest.schema ⟨"zenoh-router", 0⟩) { daemon := [router] } =
      ([.ok (serialize actionSchema ⟨routerInfo⟩)], restarted) := by
    rw [Link.serve, build_restart]
    rfl
  have hread : link.client.containerActionResponse (serialize actionSchema ⟨routerInfo⟩) =
      .ok ⟨routerInfo⟩ :=
    link_speaks.action { name := "zenoh-router", id := router.id, attrs := router.attrs, imageTags := []
                         imageId := "", labels := router.labels } routerInfo rfl
  have hcall : Cli.call (link.host first) first.args .restart (serialize restartRequest.schema ⟨"zenoh-router", 0⟩)
      link.client.containerActionResponse { beyond := { daemon := [router] } } =
      .ok ⟨routerInfo⟩ { beyond := restarted } := by
    refine (Cli.call_run hserve).trans ?_
    rw [Cli.firstReply, hread]
    rfl
  have hmain : Cli.main (link.host first) first.args { beyond := { daemon := [router] } } =
      .ok () { beyond := restarted, stdout := [Cli.actionLine .restart ⟨routerInfo⟩] } :=
    run_bind_ok hcall
  have hline : Cli.actionLine .restart ⟨routerInfo⟩ =
      "restart zenoh-router: now running (restart_count=0)" := by decide +kernel
  rw [← hline]
  exact congrArg Ending.of hmain

/-- The same once more, the answer lost, and `stop --name keelson-interface-docker`. -/
def others : List (Invocation (List Container)) :=
  [{ args := args (.restart "zenoh-router" 0), heard := .nothing },
   { args := args (.stop "keelson-interface-docker" 0) }]

/-- The first command makes the one change it reports, and each of the others at most one. -/
theorem verdicts_terminal : ∃ changes : List (List (Mutation × Container)),
    (link.session { daemon := [router] } (first :: others)).2.mutations =
      (.act .restart, router) :: changes.flatten ∧
    changes.length = 2 ∧ ∀ l ∈ changes, l.length ≤ 1 := by
  have hplain : ∀ i ∈ first :: others, link.Plain i := by
    intro i hi payload hheard
    simp only [others, List.mem_cons, List.not_mem_nil, or_false] at hi
    rcases hi with rfl | rfl | rfl <;> cases hheard
  obtain ⟨changes, hmutations, hverdicts⟩ :=
    Link.verdicts link_speaks foreign_engine hplain { daemon := [router] }
  obtain ⟨l, ls, hfirst, hothers, rfl⟩ := List.forall₂_cons_left_iff.mp hverdicts
  have hended : (link.invoke first { daemon := [router] }).1.raised = none := by rw [invoke_first]
  obtain ⟨c, response, rfl, -, -⟩ := hfirst.done hended (.act .restart) "zenoh-router" rfl
  obtain ⟨name, hname, -, -, hresolved, -⟩ := hfirst.asked (.act .restart) c (List.mem_singleton_self _)
  cases hname
  obtain rfl : router = c := Option.some.inj hresolved
  obtain ⟨l₂, _, h₂, hrest, rfl⟩ := List.forall₂_cons_left_iff.mp hothers
  obtain ⟨l₃, _, h₃, hnil, rfl⟩ := List.forall₂_cons_left_iff.mp hrest
  cases hnil
  refine ⟨[l₂, l₃], hmutations, rfl, fun l hl => ?_⟩
  rcases List.mem_pair.mp hl with rfl | rfl
  · exact h₂.once
  · exact h₃.once

end Terminal

end KeelsonDocker
