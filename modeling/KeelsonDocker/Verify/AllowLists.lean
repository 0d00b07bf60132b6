import KeelsonDocker.Verify.Host

/-!
# The allow-lists and the container acted on

The lists are matched against the request's string, so they bind the container's own name exactly when
the daemon resolves no id to a container whose name they leave out.
-/

namespace KeelsonDocker

variable {σ : Type}

/-- `container.name or ""` -/
def Container.ownName (c : Container) : String := c.name.getD ""

/-- A request changes only containers whose own name the verb's list matches, exactly when a string
that passes the guard and is not the name of the container it resolves to resolves to a container
whose name passes as well. -/
theorem binds_own_name_iff (ctx : Context σ) (m : Mutation) (raw : Bytes) (d : σ) (t : Int) :
    (∀ m' c, (m', c) ∈ performed ctx m raw d t → matchesAny c.ownName (ctx.guard.globs m') = true) ↔
      ∀ name force c, carried ctx.pb m raw = some (name, force) → name ≠ "" →
        ctx.guard.letsThrough m name = true → resolved ctx.backend name d = some c →
        goesAhead m force c = true → c.ownName ≠ name →
        matchesAny c.ownName (ctx.guard.globs m) = true := by
  constructor
  · intro h name force c hreq hn hlets hres hgo _
    exact h m c (mem_performed.mpr ⟨rfl, name, force, hreq, hn, hlets, hres, hgo⟩)
  · intro h m' c hc
    obtain ⟨rfl, name, force, hreq, hn, hlets, hres, hgo⟩ := mem_performed.mp hc
    by_cases hname : c.ownName = name
    · rw [hname]
      exact (ControlGuard.letsThrough_iff.mp hlets).2.2
    · exact h name force c hreq hn hlets hres hgo hname

/-- Whatever a request carries, the list of its verb matches the name of the container changed. -/
def BindsOwnName : Prop :=
  ∀ (σ : Type) (ctx : Context σ), LooksUp ctx.backend →
    ∀ m raw d t m' c, (m', c) ∈ performed ctx m raw d t →
      matchesAny c.ownName (ctx.guard.globs m') = true

/-! ### A container started under its id -/

namespace ById

/-- A database that `--allow 'b*'` does not name. -/
def database : Container where
  name := some "postgres"
  id := "b71e0c9d4fa2863517ec0db94a68f23c5d1907be846fa3c2d05e7b91c8f6a043"
  attrs := .dict []
  labels := .dict []
  image := .ok none

def ctx : Context (List Container) where
  backend := host
  guard := { controlEnabled := true, allowGlobs := ["b*"], selfIdentity := {"keelson"} }
  pb := wire

theorem not_bindsOwnName : ¬ BindsOwnName := by
  intro h
  have hc : (.act .stop, database) ∈ performed ctx (.act .stop) (writeName "b71e0c9d") [database] 0 :=
    mem_performed.mpr ⟨rfl, "b71e0c9d", false, rfl, by decide, by decide, rfl, rfl⟩
  have := h _ ctx looksUp_host _ _ _ _ _ _ hc
  exact absurd this (by decide)

end ById

end KeelsonDocker
