import KeelsonDocker.Cli
import KeelsonDocker.Theory.Effect

/-!
# What a command sends

A command sends nothing, or one query, of which the first reply counts (`Cli.ran_main`); what it prints then
changes nothing but its own output (`Cli.local_finish`).
-/

namespace KeelsonDocker

open Effect

/-! ### The client -/

namespace Command

def procedure : Command → Procedure
  | list .. => .list
  | logs .. => .logs
  | start .. => .start
  | stop .. => .stop
  | restart .. => .restart
  | remove .. => .remove

/-- The request a command sends, if its numbers fit. -/
def payload (pb : ClientProtobuf) : Command → Except Exn Bytes
  | list runningOnly nameGlob => .ok (pb.listContainersRequest { runningOnly, nameGlob })
  | logs name tail stream => do
    let tailLines ← uint32 tail
    return pb.getLogsRequest
      { name, tailLines := tailLines.toNat, since := none, stream := stream.selector }
  | start name => .ok (pb.startContainerRequest { name })
  | stop name timeoutS => do
    let timeoutS ← uint32 timeoutS
    return pb.stopContainerRequest { name, timeoutS := timeoutS.toNat }
  | restart name timeoutS => do
    let timeoutS ← uint32 timeoutS
    return pb.restartContainerRequest { name, timeoutS := timeoutS.toNat }
  | remove name force volumes => .ok (pb.removeContainerRequest { name, force, removeVolumes := volumes })

end Command

namespace Cli

variable {W : Type}

/-- What `main` makes of the payload of a success. -/
def finish (pb : ClientProtobuf) (command : Command) (raw : Bytes) : Cli W Unit :=
  match command with
  | .list .. => decoded (pb.listContainersResponse raw) >>= printContainers pb
  | .logs .. => decoded (pb.getLogsResponse raw) >>= printLogs pb
  | .start .. => decoded (pb.containerActionResponse raw) >>= fun r => print (actionLine .start r)
  | .stop .. => decoded (pb.containerActionResponse raw) >>= fun r => print (actionLine .stop r)
  | .restart .. => decoded (pb.containerActionResponse raw) >>= fun r => print (actionLine .restart r)
  | .remove .. => decoded (pb.removeContainerResponse raw) >>= fun r => print (removeLine r)

variable {host : CliHost W} {args : CliArgs} {w : CliWorld W}

/-- How a command goes: it sends nothing, or one query, and the first reply counts. -/
inductive Ran (host : CliHost W) (args : CliArgs) (w : CliWorld W) :
    EStateM.Result AppExn (CliWorld W) Unit → Prop
  | unsent (e : Exn) : Ran host args w (.error (.raised e) w)
  | unanswered (payload : Bytes) (beyond : W) (text : String)
      (hpayload : args.command.payload host.pb = .ok payload)
      (hget : host.get { args with procedure := args.command.procedure } payload w.beyond = ([], beyond)) :
      Ran host args w (.error (.exit ("No reply from " ++ text)) { w with beyond })
  | refused (payload : Bytes) (beyond : W) (raw : Bytes) (rest : List QueryReply)
      (hpayload : args.command.payload host.pb = .ok payload)
      (hget : host.get { args with procedure := args.command.procedure } payload w.beyond =
        (.err raw :: rest, beyond)) :
      Ran host args w (.error (.exit (describeError host.pb raw)) { w with beyond })
  | answered (payload : Bytes) (beyond : W) (raw : Bytes) (rest : List QueryReply)
      (hpayload : args.command.payload host.pb = .ok payload)
      (hget : host.get { args with procedure := args.command.procedure } payload w.beyond =
        (.ok raw :: rest, beyond)) :
      Ran host args w (finish host.pb args.command raw { w with beyond })

section

variable {procedure : Procedure} {payload : Bytes} {fromString : Bytes → Except String α}
  {replies : List QueryReply} {beyond : W}

theorem call_run (hget : host.get { args with procedure } payload w.beyond = (replies, beyond)) :
    call host args procedure payload fromString w =
      firstReply host args { args with procedure } fromString replies { w with beyond } := by
  have hcall : call host args procedure payload fromString w =
      firstReply host args { args with procedure } fromString
        (host.get { args with procedure } payload w.beyond).1
        { w with beyond := (host.get { args with procedure } payload w.beyond).2 } := rfl
  rw [hcall, hget]

theorem ran_call {command : Command} {k : α → Cli W Unit} (hcommand : args.command = command)
    (hpayload : command.payload host.pb = .ok payload)
    (hfinish : ∀ raw, finish host.pb command raw = decoded (fromString raw) >>= k) :
    Ran host args w ((call host args command.procedure payload fromString >>= k) w) := by
  subst hcommand
  obtain ⟨replies, beyond, hget⟩ : ∃ replies beyond,
      host.get { args with procedure := args.command.procedure } payload w.beyond = (replies, beyond) :=
    ⟨_, _, rfl⟩
  have hcall : call host args args.command.procedure payload fromString w = _ := call_run hget
  rcases replies with - | ⟨raw | raw, rest⟩
  · rw [run_bind_error hcall]
    exact .unanswered payload beyond _ hpayload hget
  · have hbind : (call host args args.command.procedure payload fromString >>= k) w =
        finish host.pb args.command raw { w with beyond } := by
      rw [hfinish]
      cases h : decoded (fromString raw) ({ w with beyond } : CliWorld W) with
      | ok a w' => rw [run_bind_ok h, run_bind_ok (hcall.trans h)]
      | error e w' => rw [run_bind_error h, run_bind_error (hcall.trans h)]
    rw [hbind]
    exact .answered payload beyond raw rest hpayload hget
  · rw [run_bind_error hcall]
    exact .refused payload beyond raw rest hpayload hget

end

theorem ran_lift {x : Except Exn α} {k : α → Cli W Unit}
    (h : ∀ a, x = .ok a → Ran host args w (k a w)) : Ran host args w ((lift x >>= k) w) := by
  cases x with
  | error e => exact .unsent e
  | ok a => exact h a rfl

theorem ran_main (host : CliHost W) (args : CliArgs) (w : CliWorld W) :
    Ran host args w (main host args w) := by
  refine ran_lift fun u hopen => ?_
  cases hcommand : args.command with
  | list runningOnly nameGlob => exact ran_call hcommand rfl fun raw => rfl
  | logs name tail stream =>
    refine ran_lift fun tailLines htail => ?_
    exact ran_call hcommand (by rw [Command.payload, htail]; rfl) fun raw => rfl
  | start name => exact ran_call hcommand rfl fun raw => rfl
  | stop name timeoutS =>
    refine ran_lift fun timeoutS' htimeout => ?_
    exact ran_call hcommand (by rw [Command.payload, htimeout]; rfl) fun raw => rfl
  | restart name timeoutS =>
    refine ran_lift fun timeoutS' htimeout => ?_
    exact ran_call hcommand (by rw [Command.payload, htimeout]; rfl) fun raw => rfl
  | remove name force volumes => exact ran_call hcommand rfl fun raw => rfl

/-- What lies beyond the session is left alone. -/
def Local (x : Cli W α) : Prop := ∀ w, (after x w).beyond = w.beyond

theorem Local.bind {x : Cli W α} {f : α → Cli W β} (hx : Local x) (hf : ∀ a, Local (f a)) :
    Local (x >>= f) := by
  intro w
  cases h : x w with
  | ok a w' => rw [after_bind_ok h, hf a w', ← hx w, after_ok h]
  | error e w' => rw [after_bind_error h, ← hx w, after_error h]

theorem local_print (text : String) : Local (print text : Cli W Unit) := fun _ => rfl

theorem local_lift (x : Except Exn α) : Local (lift x : Cli W α) := by
  cases x <;> exact fun _ => rfl

theorem local_decoded (x : Except String α) : Local (decoded x : Cli W α) := by
  cases x <;> exact fun _ => rfl

theorem local_forIn {f : α → β → Cli W (ForInStep β)} (h : ∀ a b, Local (f a b)) (as : List α) (b : β) :
    Local (forIn as b f) := by
  induction as generalizing b with
  | nil => exact fun _ => rfl
  | cons a as ih =>
    rw [List.forIn_cons]
    refine .bind (h a b) fun step => ?_
    cases step with
    | done b => exact fun _ => rfl
    | yield b => exact ih b

theorem local_fmtTime (pb : ClientProtobuf) (stamp : Option Timestamp) :
    Local (fmtTime pb stamp : Cli W String) := by
  cases stamp with
  | none => exact fun _ => rfl
  | some stamp => exact local_lift _

theorem local_printContainers (pb : ClientProtobuf) (r : ListContainersResponse) :
    Local (printContainers pb r : Cli W Unit) := by
  have htable : Local (W := W) (do
      print tableHeader
      print (String.ofList (List.replicate tableHeader.length '-'))
      for c in r.containers do
        let started ← fmtTime pb c.startedAt
        print (row c.name (stateWord c.state) (yesNo c.controllable) (yesNo c.removable) started c.image)
      print ("\n" ++ toString r.containers.length ++ " container(s)")) := by
    refine .bind (local_print _) fun _ => .bind (local_print _) fun _ => ?_
    refine .bind (local_forIn (fun c _ => ?_) _ _) fun _ => local_print _
    exact .bind (local_fmtTime pb _) fun _ => .bind (local_print _) fun _ _ => rfl
  unfold printContainers
  cases r.controlEnabled with
  | false => exact .bind (local_print _) fun _ => htable
  | true =>
    cases r.removeEnabled with
    | false => exact .bind (local_print _) fun _ => htable
    | true => exact htable

theorem local_printLogs (pb : ClientProtobuf) (r : GetLogsResponse) :
    Local (printLogs pb r : Cli W Unit) := by
  have hlines : Local (W := W) (do
      for entry in r.lines do
        let stamp ← fmtTime pb entry.time
        let tag := if entry.stream = .stderr then "E" else " "
        print (stamp ++ " " ++ tag ++ " " ++ entry.text)) := by
    refine .bind (local_forIn (fun entry _ => ?_) _ _) fun _ _ => rfl
    exact .bind (local_fmtTime pb _) fun _ => .bind (local_print _) fun _ _ => rfl
  unfold printLogs
  cases r.truncated with
  | false => exact hlines
  | true => exact .bind (local_print _) fun _ => hlines

theorem local_finish (pb : ClientProtobuf) (command : Command) (raw : Bytes) :
    Local (finish pb command raw : Cli W Unit) := by
  cases command with
  | list => exact .bind (local_decoded _) fun r => local_printContainers pb r
  | logs => exact .bind (local_decoded _) fun r => local_printLogs pb r
  | start | stop | restart | remove => exact .bind (local_decoded _) fun r => local_print _

end Cli

end KeelsonDocker
