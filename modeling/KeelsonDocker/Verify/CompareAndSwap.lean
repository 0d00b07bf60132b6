import KeelsonDocker.Verify.WriteAlone
import Mathlib.Data.Set.Function

/-!
# Saves compare and swap

Whatever the requests, however their threads take turns and whichever call fails, the saves are one after
another, each on the tree the one before it left, and each is all or nothing on the very file that its
base names. What a thread has found out before it takes the lock stays true: a save puts a file in the
place of nothing or of a link that leads nowhere, so the links there are only get fewer, and a place
resolved is a place where they lead nowhere in any such tree (`Fit`).
-/

namespace KeelsonDocker.WriteRun

open Effect FileSystem FileTree PlatformWrite

section

variable {ι : Type} {ctx : PlatformContext} {host : Host} {raws : ι → Bytes} {i : ι} {raw : Bytes}
  {t t₀ t' : FileTree Bytes} {phase : Phase} {saving : Saving} {chance : Chance} {save : Save}
  {request : WriteFileRequest} {path rootReal real : Path} {rel : String} {r : Resolving}
  {result : Except Exn Unit} {content : Bytes}

/-! ### A save takes links away at most -/

/-- A stage takes links away at most. -/
theorem carry_skeleton_sub (h : Holds host.sha256Of saving.save t₀ saving.stage t) :
    Sub (carry host chance saving t).2.skeleton t.skeleton := by
  have hsub : Sub (carry host chance saving t).2.skeleton t₀.skeleton := Holds.skeleton_sub h.advance
  by_cases hended : ∃ result, saving.stage = .ended result
  · obtain ⟨result, hresult⟩ := hended
    simp only [carry, hresult, advance]
    exact Sub.refl _
  · exact hsub.trans (Holds.skeleton_sup h fun result hresult => hended ⟨result, hresult⟩)

/-! ### What holds of a thread -/

/-- No link on the way leads anywhere, nor would it with fewer links about. -/
structure Fit (t : FileTree Bytes) (path : Path) : Prop where
  clean : ∀ u, Sub u t.skeleton → Clean u path
  ne : path ≠ []

theorem Fit.of_sub (h : Fit t path) (hsub : Sub t'.skeleton t.skeleton) : Fit t' path :=
  ⟨fun u hu => h.clean u (hu.trans hsub), h.ne⟩

/-- What the request asks to be saved. -/
def Asked (host : Host) (raw content : Bytes) (baseSha256 : String) : Prop :=
  ∃ request, host.pb.writeFileRequest raw = .ok request ∧ request.content = content ∧
    request.baseSha256 = baseSha256

/-- What holds of a thread outside the lock. -/
def Good (host : Host) (raws : ι → Bytes) (i : ι) (t : FileTree Bytes) : Phase → Prop
  | .arrived | .refused _ | .ended _ => True
  | .rooting request .. => Asked host (raws i) request.content request.baseSha256
  | .placing request _ r => Asked host (raws i) request.content request.baseSha256 ∧
    ∀ u, Sub u t.skeleton → Sound u r
  | .relating request path _ | .rerooting request path .. =>
    Asked host (raws i) request.content request.baseSha256 ∧ Fit t path
  | .waiting save _ => Asked host (raws i) save.content save.baseSha256 ∧ Fit t save.path

/-- What holds of the thread that took the lock with the tree `t₀`. -/
structure Inside (host : Host) (raws : ι → Bytes) (i : ι) (t₀ : FileTree Bytes) (saving : Saving)
    (t : FileTree Bytes) : Prop where
  asked : Asked host (raws i) saving.save.content saving.save.baseSha256
  fit : Fit t₀ saving.save.path
  holds : Holds host.sha256Of saving.save t₀ saving.stage t

theorem Good.of_sub (h : Good host raws i t phase) (hsub : Sub t'.skeleton t.skeleton) :
    Good host raws i t' phase := by
  cases phase with
  | arrived | refused | ended => trivial
  | rooting => exact h
  | placing => exact ⟨h.1, fun u hu => h.2 u (hu.trans hsub)⟩
  | relating | rerooting | waiting => exact ⟨h.1, h.2.of_sub hsub⟩

theorem sound_of_step {r' : Resolving} (h : ∀ u, Sub u t.skeleton → Sound u r)
    (hstep : (r.step fun _ => t.lstat) = some r') : ∀ u, Sub u t.skeleton → Sound u r' :=
  fun u hu =>
    ((h u hu).round (answers_of_sub (hu.trans (sub_skeleton t))) (round_of_step hstep)).1

theorem fit_of_checkPlace (h : ∀ u, Sub u t.skeleton → Sound u r)
    (hplace : PlatformPaths.checkPlace rootReal r.path = .ok ()) : Fit t r.path := by
  obtain ⟨_, hallowed⟩ := PlatformPaths.checkPlace_eq_ok.mp hplace
  refine ⟨fun u hu => (h u hu).clean, fun hnil => ?_⟩
  rw [hnil] at hallowed
  exact absurd hallowed (by decide)

theorem Good.decided (hasked : Asked host (raws i) request.content request.baseSha256)
    (hfit : Fit t path) : Good host raws i t (decided ctx request path rel) := by
  unfold WriteRun.decided
  dsimp only
  split
  · trivial
  · exact ⟨hasked, hfit⟩

theorem Good.look (h : Good host raws i t phase) :
    Good host raws i t (look ctx host (raws i) t phase) := by
  cases phase with
  | waiting | refused | ended => exact h
  | arrived =>
    simp only [WriteRun.look]
    split
    · trivial
    · rename_i request hrequest
      split
      · trivial
      · exact ⟨request, hrequest, rfl, rfl⟩
  | rooting request parts r =>
    simp only [WriteRun.look]
    split
    · exact h
    · exact ⟨h, fun u _ => sound_start u _⟩
  | placing request rootReal r =>
    simp only [WriteRun.look]
    split
    · rename_i hstep
      exact ⟨h.1, sound_of_step h.2 hstep⟩
    · split
      · trivial
      · rename_i hplace
        exact ⟨h.1, fit_of_checkPlace h.2 hplace⟩
  | relating request path r =>
    simp only [WriteRun.look]
    split <;> exact h
  | rerooting request path real r =>
    simp only [WriteRun.look]
    split
    · exact h
    · split
      · trivial
      · exact Good.decided h.1 h.2

theorem rules (ctx : PlatformContext) (host : Host) (raws : ι → Bytes) :
    Critical.Rules (program ctx host raws) (Good host raws) (Inside host raws) where
  roam h hroam := hroam ▸ h.look
  enter h henter := by
    obtain ⟨save, rel, rfl, rfl⟩ := henter
    exact ⟨h.1, h.2, rfl⟩
  work h hwork := by
    obtain ⟨chance, hwork⟩ := hwork
    cases hwork
    exact ⟨h.asked, h.fit, h.holds.advance⟩
  stands h hwork hgood := by
    obtain ⟨chance, hwork⟩ := hwork
    cases hwork
    exact hgood.of_sub (carry_skeleton_sub h.holds)
  leave _ hleave := by
    obtain ⟨_, _, _, _, rfl⟩ := hleave
    trivial

/-- The request has been answered, or its answer has failed, after its save. -/
def Phase.Over : Phase → Prop
  | .ended _ => True
  | _ => False

theorem look_not_over (h : ¬ phase.Over) : ¬ (look ctx host raw t phase).Over := by
  cases phase with
  | waiting | refused | ended => exact h
  | arrived | rooting | placing | relating =>
    simp only [WriteRun.look]
    repeat' split
    all_goals exact id
  | rerooting =>
    simp only [WriteRun.look, decided]
    repeat' split
    all_goals exact id

theorem oneTurn (ctx : PlatformContext) (host : Host) (raws : ι → Bytes) :
    Critical.OneTurn (program ctx host raws) Phase.Over where
  stays {i x l l'} h hroam := by
    cases l with
    | ended => exact hroam
    | _ => cases h
  shut h henter := by
    obtain ⟨_, _, rfl, _⟩ := henter
    exact h
  early h hroam := hroam ▸ look_not_over h
  done hleave := by
    obtain ⟨_, _, _, _, rfl⟩ := hleave
    trivial

/-! ### What a turn comes to -/

/-- The save was carried through. -/
def Completed (saving : Saving) : Prop := saving.stage = .ended (.ok ())

/-- A file that can be read stands at its own place. -/
structure Stands (t : FileTree Bytes) (path : Path) (content : Bytes) : Prop where
  located : Located t path
  node : ∃ mode, t.node path = some (.file mode content)
  readable : t.unreadable path = none

theorem Stands.read (h : Stands t path content) : t.read path = .ok content := by
  obtain ⟨mode, hn⟩ := h.node
  exact read_eq_ok.mpr ⟨path, mode, h.located.walk_eq, hn, h.readable⟩

theorem Stands.checkBaseSha (h : Stands t path content) (hsha : host.sha256Of content ≠ "") :
    checkBaseSha host.sha256Of t path (host.sha256Of content) = .ok content := by
  obtain ⟨mode, hn⟩ := h.node
  have hfile : isFile t path = .ok true :=
    isFile_eq_true.mpr ⟨path, mode, content, h.located.walk_eq, hn⟩
  simp [PlatformWrite.checkBaseSha, hfile, hsha, h.read, sys, bind, Except.bind]

theorem Stands.of_sets {path' : Path} {mode : Nat} {content' : Bytes} (h : Stands t path content)
    (hne : path ≠ path') (hsets : Sets t t' path' (some (.file mode content'))) :
    Stands t' path content := by
  obtain ⟨mode', hn⟩ := h.node
  refine ⟨h.located.of_sets hne hsets nofun, ⟨mode', by rw [hsets.node_of_ne hne, hn]⟩, ?_⟩
  rw [hsets.unreadable path hne (by rw [hn]; exact nofun), h.readable]

theorem Stands.of_same (h : Stands t path content) (hsame : Same t t') : Stands t' path content := by
  obtain ⟨mode, hn⟩ := h.node
  have hlocated := h.located.congr hsame.refused fun q _ => by rw [hsame.node]
  refine ⟨hlocated, ⟨mode, by rw [hsame.node, hn]⟩, ?_⟩
  rw [hsame.unreadable path (by rw [hn]; exact nofun), h.readable]

/-- What a save that was carried through has done. -/
structure Landed (host : Host) (save : Save) (t t' : FileTree Bytes) : Prop where
  saved : Saved host.sha256Of save t t'
  stands : Stands t' save.path save.content
  sets : ∃ mode, Sets t t' save.path (some (.file mode save.content))

theorem Inside.landed (h : Inside host raws i t₀ saving t) (hc : Completed saving) :
    Landed host saving.save t₀ t := by
  have hholds := h.holds
  rw [hc] at hholds
  obtain ⟨hlicensed, hreplaced⟩ := hholds
  have hclean := h.fit.clean t₀.skeleton (Sub.refl _)
  obtain ⟨hsaved, hlocated, hreadable⟩ := hreplaced.saved hlicensed hclean h.fit.ne
  obtain ⟨_, _, mode, hsets, _⟩ := hreplaced.at_path hclean h.fit.ne
  exact ⟨hsaved, ⟨hlocated, ⟨mode, hsets.node_self⟩, hreadable⟩, mode, hsets⟩

theorem Inside.same (h : Inside host raws i t₀ saving t) (hended : saving.stage = .ended result)
    (hc : ¬ Completed saving) : Same t₀ t := by
  have hholds := h.holds
  rw [hended] at hholds
  cases result with
  | ok _ => exact absurd hended hc
  | error e => exact hholds

/-! ### Runs -/

/-- The contents there are to begin with, and those to be saved. -/
inductive Stored (host : Host) (raws : ι → Bytes) (t₀ : FileTree Bytes) : Bytes → Prop
  | file {path : Path} {mode : Nat} {content : Bytes} : t₀.node path = some (.file mode content) →
    Stored host raws t₀ content
  | request {i : ι} {request : WriteFileRequest} : host.pb.writeFileRequest (raws i) = .ok request →
    Stored host raws t₀ request.content

/-- The contents involved: those, and what a read that is cut makes of them. -/
def Involved (host : Host) (raws : ι → Bytes) (t₀ : FileTree Bytes) : Set Bytes :=
  { content | ∃ whole, Stored host raws t₀ whole ∧
    (content = whole ∨ content = whole.take PlatformRepo.MAX_FILE_BYTES) }

abbrev State (ι : Type) := Critical.State ι (FileTree Bytes) Phase Saving
abbrev Turn (ι : Type) := Critical.Turn ι (FileTree Bytes) Phase Saving

/-- A state that the threads can get to from the tree `t₀`. -/
def Reached [DecidableEq ι] (ctx : PlatformContext) (host : Host) (raws : ι → Bytes)
    (t₀ : FileTree Bytes) (s : State ι) : Prop :=
  Critical.Reached (program ctx host raws) (start t₀) s

variable [DecidableEq ι] {s : State ι} {turn : Turn ι} {turns earlier later : List (Turn ι)}

theorem Reached.orderly (h : Reached ctx host raws t₀ s) :
    Critical.Orderly (program ctx host raws) (Good host raws) (Inside host raws) t₀ s :=
  (rules ctx host raws).reached
    (Critical.orderly_start fun i => show Good host raws i t₀ .arrived from trivial) h

theorem Reached.ledger (h : Reached ctx host raws t₀ s) :
    Critical.Ledger (program ctx host raws) Phase.Over s :=
  (oneTurn ctx host raws).reached (Critical.ledger_start fun _ => id) h

namespace Reached

theorem landed (h : Reached ctx host raws t₀ s) (hturn : turn ∈ s.turns) (hc : Completed turn.ended) :
    Landed host turn.ended.save turn.before turn.after :=
  (h.orderly.taken turn hturn).1.landed hc

theorem same (h : Reached ctx host raws t₀ s) (hturn : turn ∈ s.turns) (hc : ¬ Completed turn.ended) :
    Same turn.before turn.after := by
  obtain ⟨hinside, _, _, _, hended, _⟩ := h.orderly.taken turn hturn
  exact hinside.same hended hc

/-- A turn brings nothing into the tree but the content of its request. -/
theorem stored (h : Reached ctx host raws t₀ s) (hturn : turn ∈ s.turns) {mode : Nat}
    (hn : turn.before.node path = some (.file mode content)) : Stored host raws t₀ content := by
  let K (t : FileTree Bytes) : Prop :=
    ∀ path mode content, t.node path = some (.file mode content) → Stored host raws t₀ content
  have hkeep : ∀ turn ∈ s.turns, K turn.before → K turn.after := by
    intro turn hturn hK path mode content hn
    by_cases hc : Completed turn.ended
    · obtain ⟨mode', hsets⟩ := (h.landed hturn hc).sets
      by_cases hpath : path = turn.ended.save.path
      · rw [hpath, hsets.node_self] at hn
        cases hn
        obtain ⟨request, hrequest, hcontent, _⟩ := (h.orderly.taken turn hturn).1.asked
        exact hcontent ▸ .request hrequest
      · exact hK path mode content (hsets.node_of_ne hpath ▸ hn)
    · exact hK path mode content ((h.same hturn hc).node ▸ hn)
  exact h.orderly.chain.keeps_before (K := K) (fun _ _ _ => .file) hkeep hturn path mode content hn

theorem involved (h : Reached ctx host raws t₀ s) (hturn : turn ∈ s.turns)
    (hread : turn.before.read path = .ok content) : content ∈ Involved host raws t₀ := by
  obtain ⟨place, mode, _, hn, _⟩ := read_eq_ok.mp hread
  exact ⟨content, h.stored hturn hn, .inl rfl⟩

/-- What a save has put into place stands there until another is carried through to that place. -/
theorem stands (h : Reached ctx host raws t₀ s) (hturns : s.turns = earlier ++ turn :: later)
    (hc : Completed turn.ended)
    (hlater : ∀ turn' ∈ later, Completed turn'.ended → turn'.ended.save.path ≠ turn.ended.save.path) :
    Stands s.settled turn.ended.save.path turn.ended.save.content := by
  have hmem {turn' : Turn ι} (hturn' : turn' ∈ turn :: later) : turn' ∈ s.turns := by
    rw [hturns]
    exact List.mem_append_right _ hturn'
  obtain ⟨_, _, _, hchain⟩ := Critical.chain_append.mp (hturns ▸ h.orderly.chain)
  refine hchain.keeps (K := fun t => Stands t turn.ended.save.path turn.ended.save.content)
    (h.landed (hmem List.mem_cons_self) hc).stands fun turn' hturn' hstands => ?_
  have hturn := hmem (List.mem_cons_of_mem _ hturn')
  by_cases hc' : Completed turn'.ended
  · obtain ⟨mode, hsets⟩ := (h.landed hturn hc').sets
    exact hstands.of_sets (hlater turn' hturn' hc').symm hsets
  · exact hstands.of_same (h.same hturn hc')

end Reached

/-! ### What a base licenses -/

/-- What `read_file` answers about the file at a path, read from the tree as it is then. -/
structure Reads (host : Host) (t : FileTree Bytes) (path : Path) (response : ReadFileResponse) :
    Prop where
  bytes : PlatformRepo.readBytes t path = .ok (response.content, response.truncated)
  sha256 : response.sha256 = host.sha256Of response.content

omit [DecidableEq ι] in
theorem reads_of_contents {relative : String} {response : ReadFileResponse}
    (h : PlatformHandlers.contents ctx host t relative = .ok response) :
    ∃ path, PlatformPaths.resolve t ctx.root relative true = .ok path ∧ Reads host t path response := by
  obtain ⟨path, hpath, h⟩ := bind_eq_ok.mp h
  obtain ⟨rel, _, h⟩ := bind_eq_ok.mp h
  obtain ⟨⟨content, truncated⟩, hbytes, h⟩ := bind_eq_ok.mp h
  obtain ⟨size, _, h⟩ := bind_eq_ok.mp h
  cases h
  exact ⟨path, hpath, hbytes, rfl⟩

/-- A reply flagged truncated names other bytes than those it was read from. -/
theorem Reads.cut {response : ReadFileResponse} (h : Reads host t path response)
    (htruncated : response.truncated = true) :
    ∃ data, t.read path = .ok data ∧ response.content = data.take PlatformRepo.MAX_FILE_BYTES ∧
      response.content ≠ data := by
  have hbytes := h.bytes
  rw [htruncated] at hbytes
  unfold PlatformRepo.readBytes at hbytes
  split at hbytes
  · cases hbytes
  · rename_i data hread
    split at hbytes
    · rename_i hlong
      simp only [Except.ok.injEq, Prod.mk.injEq, and_true] at hbytes
      refine ⟨data, hread, hbytes.symm, fun heq => ?_⟩
      have hlen := congrArg List.length (hbytes.trans heq)
      rw [List.length_take] at hlen
      omega
    · simp at hbytes

/-- The promise of compare and swap, of a state reached from the tree `t₀`. -/
structure ComparesAndSwaps (host : Host) (raws : ι → Bytes) (t₀ : FileTree Bytes) (s : State ι) :
    Prop where
  /-- The saves are one after another. -/
  serial : Critical.Chain t₀ s.turns s.settled
  /-- One on its way has changed nothing but what its stage says. -/
  underway : ∀ h ∈ s.holder, Holds host.sha256Of h.now.save h.before h.now.stage s.shared
  asked : ∀ turn ∈ s.turns,
    Asked host (raws turn.thread) turn.ended.save.content turn.ended.save.baseSha256
  completed : ∀ turn ∈ s.turns, Completed turn.ended →
    Saved host.sha256Of turn.ended.save turn.before turn.after
  /-- What the base names is what was found. -/
  named : ∀ turn ∈ s.turns, Completed turn.ended → ∀ data ∈ Involved host raws t₀,
    host.sha256Of data = turn.ended.save.baseSha256 →
      turn.before.read turn.ended.save.path = .ok data
  failed : ∀ turn ∈ s.turns, ¬ Completed turn.ended → Same turn.before turn.after
  /-- A request refused before the lock has had no turn, nor has it one. -/
  refused : ∀ i outcome, s.locals i = .refused outcome →
    s.Outside i ∧ ∀ turn ∈ s.turns, turn.thread ≠ i
  answered : ∀ i response, s.locals i = .ended (.ok (.ok (.writeFile response))) →
    ∃ turn ∈ s.turns, turn.thread = i ∧ Completed turn.ended
  /-- The sha256 of a reply is good for the next save. -/
  accepted : ∀ earlier turn later response, s.turns = earlier ++ turn :: later →
    turn.left = .ended (.ok (.ok (.writeFile response))) →
    (∀ turn' ∈ later, Completed turn'.ended → turn'.ended.save.path ≠ turn.ended.save.path) →
      checkBaseSha host.sha256Of s.settled turn.ended.save.path response.sha256 =
        .ok turn.ended.save.content
  /-- The sha256 of a reply flagged truncated is good for nothing while the file is as it was read. -/
  truncated : ∀ t response, ∀ turn ∈ s.turns, Reads host t turn.ended.save.path response →
    response.truncated = true → Completed turn.ended → turn.ended.save.baseSha256 = response.sha256 →
      turn.before.read turn.ended.save.path ≠ t.read turn.ended.save.path

theorem caught_ne_ok {e : Exn} {response : PlatformResponse} : caught e ≠ .ok (.ok response) := by
  unfold caught
  split <;> nofun

omit [DecidableEq ι] in
/-- The reply that a file was written is given for a save that was carried through. -/
theorem completed_of_reply {response : WriteFileResponse}
    (h : (program ctx host raws).leave i saving (.ended (.ok (.ok (.writeFile response))))) :
    Completed saving ∧ response.sha256 = host.sha256Of saving.save.content := by
  obtain ⟨result, git, fetchHead, hstage, hreply⟩ := h
  simp only [Phase.ended.injEq] at hreply
  cases result with
  | error e => exact absurd hreply.symm caught_ne_ok
  | ok _ =>
    refine ⟨hstage, ?_⟩
    simp only [outcome] at hreply
    split at hreply
    · rename_i written hwritten
      cases hreply
      exact (PlatformHandlers.written_eq_ok hwritten).2
    · exact absurd hreply.symm caught_ne_ok

/-- **Saves compare and swap.** -/
theorem comparesAndSwaps (hhex : ∀ data, host.sha256Of data ≠ "")
    (hinj : Set.InjOn host.sha256Of (Involved host raws t₀)) (h : Reached ctx host raws t₀ s) :
    ComparesAndSwaps host raws t₀ s where
  serial := h.orderly.chain
  underway holder hholder := (h.orderly.inside holder hholder).holds
  asked turn hturn := (h.orderly.taken turn hturn).1.asked
  completed turn hturn hc := (h.landed hturn hc).saved
  named turn hturn hc data hdata hsha := by
    rcases (h.landed hturn hc).saved.found with ⟨hbase, _⟩ | ⟨_, found, hfound, hname⟩
    · exact absurd (hsha.trans hbase) (hhex data)
    · rw [hfound, hinj (h.involved hturn hfound) hdata (hname.trans hsha.symm)]
  failed turn hturn hc := h.same hturn hc
  refused i outcome hrefused := by
    refine ⟨fun holder hholder hthread => ?_, fun turn hturn hthread => ?_⟩
    · obtain ⟨_, _, _, hwaiting, _⟩ := h.ledger.inside holder hholder
      rw [hthread, hrefused] at hwaiting
      cases hwaiting
    · obtain ⟨hlocal, hover, _⟩ := h.ledger.left turn hturn
      rw [hthread, hrefused] at hlocal
      rw [← hlocal] at hover
      exact hover
  answered i response hended := by
    obtain ⟨turn, hturn, rfl⟩ := h.ledger.done i (by rw [hended]; trivial)
    have hleave := (h.orderly.taken turn hturn).2
    rw [← (h.ledger.left turn hturn).1, hended] at hleave
    exact ⟨turn, hturn, rfl, (completed_of_reply hleave).1⟩
  accepted earlier turn later response hturns hleft hlater := by
    have hturn : turn ∈ s.turns := by
      rw [hturns]
      exact List.mem_append_right _ List.mem_cons_self
    have hleave := (h.orderly.taken turn hturn).2
    rw [hleft] at hleave
    obtain ⟨hc, hsha⟩ := completed_of_reply hleave
    rw [hsha]
    exact (h.stands hturns hc hlater).checkBaseSha (hhex _)
  truncated t response turn hturn hreads htruncated hc hbase heq := by
    obtain ⟨data, hdata, hcut, hne⟩ := hreads.cut htruncated
    rw [hdata] at heq
    rcases (h.landed hturn hc).saved.found with ⟨hempty, _⟩ | ⟨_, found, hfound, hname⟩
    · rw [hempty, hreads.sha256] at hbase
      exact hhex _ hbase.symm
    · rw [heq] at hfound
      cases hfound
      obtain ⟨place, mode, _, hn, _⟩ := read_eq_ok.mp heq
      have hprefix : response.content ∈ Involved host raws t₀ := ⟨data, h.stored hturn hn, .inr hcut⟩
      rw [hbase, hreads.sha256] at hname
      exact hne (hinj hprefix (h.involved hturn heq) hname.symm)

end

namespace Edit

/-- A note. -/
def tree : FileTree Bytes :=
  .ofEntries [(["srv"], .dir), (["srv", "notes.md"], .file 0o644 [111])]
    (fun _ => none) (by decide) none_ne_noent

def ctx : PlatformContext where
  root := ["srv"]
  guard := { writeEnabled := true, writeGlobs := ["*.md"] }

/-- The bytes spelt out, which no two contents share. -/
def sha256Of (data : Bytes) : String :=
  String.ofList ('#' :: data.map fun byte => Char.ofNat byte.toNat)

/-- A save of the note as it was read. -/
def host : Host where
  git := fun _ => .notInstalled
  sha256Of := sha256Of
  pb := {
    listFilesRequest := fun _ => .error ""
    readFileRequest := fun _ => .error ""
    writeFileRequest := fun _ => .ok { path := "notes.md", content := [110], baseSha256 := "#o" } }
  chances := fun _ => { random := "k3j9" }

theorem sha256Of_injective : Function.Injective sha256Of := by
  intro data data' h
  have htoNat (byte : UInt8) : (Char.ofNat byte.toNat).toNat = byte.toNat := by
    have hlt := byte.toNat_lt
    have hvalid : byte.toNat.isValidChar := .inl (by omega)
    rw [Char.ofNat, dif_pos hvalid]
    rfl
  have hchars : Function.Injective fun byte : UInt8 => Char.ofNat byte.toNat := by
    intro byte byte' heq
    rw [← UInt8.toNat_inj, ← htoNat byte, ← htoNat byte']
    exact congrArg Char.toNat heq
  exact hchars.list_map (List.cons.inj (String.ofList_injective h)).2

theorem sha256Of_ne (data : Bytes) : sha256Of data ≠ "" := by
  intro h
  have hchars : '#' :: data.map (fun byte => Char.ofNat byte.toNat) = [] := String.ofList_injective h
  cases hchars

theorem served_edit :
    (served ctx host [] tree).1 =
      .ok (.ok (.writeFile { path := "notes.md", sha256 := "#n", pushed := false, repo := none })) := by
  rfl

theorem comparesAndSwaps_edit :
    ∃ s, Reached ctx host (fun _ : Unit => []) tree s ∧ (∃ turn ∈ s.turns, Completed turn.ended) ∧
      ComparesAndSwaps host (fun _ : Unit => []) tree s := by
  have hstart : Reached ctx host (fun _ : Unit => []) tree (start tree) := .refl
  obtain ⟨s, hs, _, _, hlocal⟩ := reached_served hstart rfl (i := ()) rfl
  have h := comparesAndSwaps sha256Of_ne sha256Of_injective.injOn hs
  have hended : s.locals () = .ended (served ctx host [] tree).1 := hlocal
  rw [served_edit] at hended
  obtain ⟨turn, hturn, _, hc⟩ := h.answered () _ hended
  exact ⟨s, hs, ⟨turn, hturn, hc⟩, h⟩

end Edit

end KeelsonDocker.WriteRun
