import KeelsonDocker.App
import KeelsonDocker.Verify.Host

/-!
# The responder's own container

`mem_selfIdentity` says which spellings of the own container a startup records. A request reaches the
own container through exactly the spellings that the daemon accepts and the startup did not record.
-/

namespace KeelsonDocker

variable {σ : Type}

/-- The spellings a snapshot gives: its name, its id and the first twelve characters of a long id. -/
def ContainerSnapshot.Spells (snapshot : ContainerSnapshot) (s : String) : Prop :=
  s ∈ spellings snapshot.name snapshot.id

/-- The spellings of the own container that a startup records. -/
inductive Recorded (E : Engine σ) (args : Args) (proc : ProcSelf) (d : σ) : String → Prop
  /-- `--self-container-name` itself, whether or not it resolves. -/
  | explicit : args.selfContainerName = some s → s ≠ "" → Recorded E args proc d s
  | explicitLookup : args.selfContainerName = some name → name ≠ "" →
    outcome (DockerBackend.get E name) d = .ok snapshot → snapshot.Spells s →
    Recorded E args proc d s
  /-- The id in `/proc` and its first twelve characters. -/
  | proc : args.selfContainerName.getD "" = "" → idFromProc proc ≠ "" →
    s ∈ spellings "" (idFromProc proc) → Recorded E args proc d s
  | procLookup : args.selfContainerName.getD "" = "" → idFromProc proc ≠ "" →
    outcome (DockerBackend.get E (idFromProc proc)) d = .ok snapshot → snapshot.Spells s →
    Recorded E args proc d s
  /-- The only container that carries the label. -/
  | label : args.selfContainerName.getD "" = "" → idFromProc proc = "" →
    outcome (DockerBackend.list E false (some (selfLabel ++ "=1"))) d = .ok [snapshot] →
    snapshot.Spells s → Recorded E args proc d s

section

variable {E : Engine σ} {args : Args} {proc : ProcSelf} {d₀ : σ} {guard : ControlGuard}

theorem mem_lookedUp {r : Except Exn ContainerSnapshot} {s : String} :
    s ∈ lookedUp r ↔ ∃ snapshot, r = .ok snapshot ∧ snapshot.Spells s := by
  cases r <;> simp [lookedUp, ContainerSnapshot.Spells]

theorem mem_resolveSelf {s : String} :
    s ∈ (resolveSelf args.selfContainerName proc
        (fun s => outcome (DockerBackend.get E s) d₀)
        (fun label => outcome (DockerBackend.list E false (some label)) d₀)).1 ↔
      Recorded E args proc d₀ s := by
  unfold resolveSelf
  by_cases hname : args.selfContainerName.getD "" ≠ ""
  · obtain ⟨name, hsome⟩ : ∃ name, args.selfContainerName = some name := by
      cases h : args.selfContainerName <;> simp_all
    simp only [hsome, Option.getD_some] at hname ⊢
    rw [if_pos hname, Finset.mem_union, mem_lookedUp]
    constructor
    · rintro (hs | ⟨snapshot, hget, hs⟩)
      · have : s = name := by simp [mem_spellings] at hs; tauto
        exact .explicit (this ▸ hsome) (this ▸ hname)
      · exact .explicitLookup hsome hname hget hs
    · rintro (⟨h, -⟩ | ⟨h, hn, hget, hs⟩ | ⟨h, -⟩ | ⟨h, -⟩ | ⟨h, -⟩)
      · cases hsome.symm.trans h
        exact .inl (by simp [hname])
      · cases hsome.symm.trans h
        exact .inr ⟨_, hget, hs⟩
      all_goals simp [hsome, hname] at h
  · have hname : args.selfContainerName.getD "" = "" := not_not.mp hname
    have hno : ∀ name, args.selfContainerName = some name → name = "" := by
      rintro name h
      simpa [h] using hname
    rw [if_neg (not_not.mpr hname)]
    by_cases hid : idFromProc proc ≠ ""
    · rw [if_pos hid, Finset.mem_union, mem_lookedUp]
      constructor
      · rintro (hs | ⟨snapshot, hget, hs⟩)
        · exact .proc hname hid hs
        · exact .procLookup hname hid hget hs
      · rintro (⟨h, hn⟩ | ⟨h, hn, -⟩ | ⟨-, -, hs⟩ | ⟨-, -, hget, hs⟩ | ⟨-, h, -⟩)
        · exact absurd (hno _ h) hn
        · exact absurd (hno _ h) hn
        · exact .inl hs
        · exact .inr ⟨_, hget, hs⟩
        · exact absurd h hid
    · have hid : idFromProc proc = "" := not_not.mp hid
      rw [if_neg (not_not.mpr hid)]
      constructor
      · intro hs
        split at hs
        · rename_i snapshot hlist
          exact .label hname hid hlist hs
        · simp at hs
      · rintro (⟨h, hn⟩ | ⟨h, hn, -⟩ | ⟨-, h, -⟩ | ⟨-, h, -⟩ | ⟨-, -, hlist, hs⟩)
        · exact absurd (hno _ h) hn
        · exact absurd (hno _ h) hn
        · exact absurd hid h
        · exact absurd hid h
        · simp only [hlist]
          exact hs

theorem mem_selfIdentity (hguard : buildGuard E args proc d₀ = some guard)
    (hctl : guard.controlEnabled = true) {s : String} :
    s ∈ guard.selfIdentity ↔ Recorded E args proc d₀ s := by
  rw [← mem_resolveSelf]
  unfold buildGuard at hguard
  cases hallow : args.allowControl with
  | false =>
    simp only [hallow, Bool.not_false, if_true, Option.some.injEq] at hguard
    rw [← hguard] at hctl
    cases hctl
  | true =>
    simp only [hallow, Bool.not_true, Bool.false_eq_true, if_false] at hguard
    split at hguard
    · cases hguard
    · rw [← Option.some.inj hguard]

/-- A request spares the container with id `own` exactly when its string is a recorded spelling in
case the daemon would resolve it to that container. -/
theorem spares_own_iff {ctx : Context σ}
    (hguard : buildGuard ctx.backend args proc d₀ = some ctx.guard)
    (hctl : ctx.guard.controlEnabled = true) (own : String) (m : Mutation) (raw : Bytes) (d : σ)
    (t : Int) :
    (∀ m' c, (m', c) ∈ performed ctx m raw d t → c.id ≠ own) ↔
      ∀ name force c, carried ctx.pb m raw = some (name, force) → name ≠ "" →
        matchesAny name (ctx.guard.globs m) = true → resolved ctx.backend name d = some c →
        goesAhead m force c = true → c.id = own → Recorded ctx.backend args proc d₀ name := by
  have hself {name : String} (hn : name ≠ "") :
      ctx.guard.isSelf name = false ↔ ¬ Recorded ctx.backend args proc d₀ name := by
    rw [← mem_selfIdentity hguard hctl, ← Bool.not_eq_true, ControlGuard.isSelf_name]
    simp [hn]
  constructor
  · intro h name force c hreq hn hglob hres hgo hown
    by_contra hrec
    have hlets : ctx.guard.letsThrough m name = true :=
      ControlGuard.letsThrough_iff.mpr ⟨hctl, (hself hn).mpr hrec, hglob⟩
    exact h m c (mem_performed.mpr ⟨rfl, name, force, hreq, hn, hlets, hres, hgo⟩) hown
  · intro h m' c hc hown
    obtain ⟨-, name, force, hreq, hn, hlets, hres, hgo⟩ := mem_performed.mp hc
    obtain ⟨-, hnot, hglob⟩ := ControlGuard.letsThrough_iff.mp hlets
    exact (hself hn).mp hnot (h name force c hreq hn hglob hres hgo hown)

end

/-- No request of a responder that started with control enabled changes its own container, which the
explicit name and the id in `/proc` stand for. -/
def SparesItself : Prop :=
  ∀ (σ : Type) (ctx : Context σ) (args : Args) (proc : ProcSelf) (d₀ : σ) (own : Container),
    LooksUp ctx.backend → buildGuard ctx.backend args proc d₀ = some ctx.guard →
    ctx.guard.controlEnabled = true →
    (∀ name, args.selfContainerName = some name → name ≠ "" → own.name = some name) →
    (idFromProc proc ≠ "" → idFromProc proc = own.id) →
    ∀ m raw d t m' c, (m', c) ∈ performed ctx m raw d t → c.id ≠ own.id

/-! ### A responder that stops itself -/

namespace OwnPrefix

def ownId : String := "3f9c27d05e1b84a6f0d3c95b7a2e6814c8d0b7f3e5a19264d8c3b6f7091e2a5d"

def own : Container where
  name := some "keelson-interface-docker"
  id := ownId
  attrs := .dict [("State", .dict [("Status", .str "running"), ("Running", .bool true)])]
  labels := .dict []
  image := .ok none

/-- `--allow-control --allow '*' --self-container-name keelson-interface-docker` -/
def args : Args where
  allowControl := true
  allow := ["*"]
  allowRemove := []
  selfContainerName := some "keelson-interface-docker"

def noProc : ProcSelf := { mountinfo := "", cgroup := "" }

/-- The lookup at startup succeeds, so the identity has all three spellings. -/
def ctx : Context (List Container) where
  backend := host
  guard := {
    controlEnabled := true
    allowGlobs := ["*"]
    selfIdentity := {"keelson-interface-docker", ownId, "3f9c27d05e1b"} }
  pb := wire

theorem buildGuard_eq : buildGuard ctx.backend args noProc [own] = some ctx.guard := rfl

/-- The own name is recorded, and a stop request that carries it spares the container. -/
theorem spares_own_iff_ownName :
    Recorded host args noProc [own] "keelson-interface-docker" ∧
      ∀ m' c, (m', c) ∈ performed ctx (.act .stop) (writeName "keelson-interface-docker") [own] 0 →
        c.id ≠ ownId :=
  have hrec : Recorded host args noProc [own] "keelson-interface-docker" := .explicit rfl (by decide)
  ⟨hrec, (spares_own_iff buildGuard_eq rfl ownId _ _ _ _).mpr fun _ _ _ hreq _ _ _ _ _ => by
    cases hreq
    exact hrec⟩

/-- Thirteen characters of the id are no recorded spelling, and the daemon resolves them. -/
theorem not_sparesItself : ¬ SparesItself := by
  intro h
  refine h _ ctx args noProc [own] own looksUp_host buildGuard_eq rfl ?_ ?_
    (.act .stop) (writeName "3f9c27d05e1b8") [own] 0 (.act .stop) own ?_ rfl
  · rintro name hname -
    exact hname
  · intro hid
    exact absurd rfl hid
  · exact mem_performed.mpr ⟨rfl, "3f9c27d05e1b8", false, rfl, by decide, by decide, rfl, rfl⟩

end OwnPrefix

end KeelsonDocker
