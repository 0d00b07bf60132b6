import KeelsonDocker.StatusWire
import KeelsonDocker.Verify.Replies

/-!
# The change detector is exact

The messages stand in the digest's input one after the other with nothing between them; each begins with
its name, the one field of number 1, so that the input tells them apart, field by field
(`digestInput_eq_iff`).
-/

namespace KeelsonDocker.Proto

open Prefix Wire

theorem Timestamp.serialize_injective : Function.Injective (serialize Timestamp.schema) := by
  intro t t' h
  have hget := get_eq_of_serialize_eq (by decide) h
  have hseconds := implicit_injective 0 ofInt64_injective (hget _ (List.mem_of_getElem? (i := 0) rfl))
  have hnanos := implicit_injective 0 ofInt32_injective (hget _ (List.mem_of_getElem? (i := 1) rfl))
  cases t
  cases t'
  congr

namespace ContainerInfo

variable {i i' : ContainerInfo} {infos infos' : List ContainerInfo}

theorem eq_of_records_eq (h : records schema i = records schema i') : i = i' := by
  have hget := get_eq_of_records_eq (by decide) h
  have text {f : ContainerInfo → String} (hf : implicit "" ofString (f i) = implicit "" ofString (f i')) :
      f i = f i' := implicit_injective "" ofString_injective hf
  have enumeration {f : ContainerInfo → Int32} (hf : implicit 0 ofInt32 (f i) = implicit 0 ofInt32 (f i')) :
      f i = f i' := implicit_injective 0 ofInt32_injective hf
  have count {f : ContainerInfo → UInt32} (hf : implicit 0 ofUInt32 (f i) = implicit 0 ofUInt32 (f i')) :
      f i = f i' := implicit_injective 0 ofUInt32_injective hf
  have bool {f : ContainerInfo → Bool} (hf : implicit false ofBool (f i) = implicit false ofBool (f i')) :
      f i = f i' := implicit_injective false ofBool_injective hf
  have time {f : ContainerInfo → Option Timestamp}
      (hf : explicit (ofMessage Timestamp.schema) (f i) = explicit (ofMessage Timestamp.schema) (f i')) :
      f i = f i' := explicit_injective (ofMessage_injective Timestamp.serialize_injective) hf
  have code : i.exitCode = i'.exitCode :=
    explicit_injective ofInt32_injective (hget _ (List.mem_of_getElem? (i := 8) rfl))
  have hname := text (hget _ (List.mem_of_getElem? (i := 0) rfl))
  have hid := text (hget _ (List.mem_of_getElem? (i := 1) rfl))
  have himage := text (hget _ (List.mem_of_getElem? (i := 2) rfl))
  have hstate := enumeration (hget _ (List.mem_of_getElem? (i := 3) rfl))
  have hraw := text (hget _ (List.mem_of_getElem? (i := 4) rfl))
  have hcreated := time (hget _ (List.mem_of_getElem? (i := 5) rfl))
  have hstarted := time (hget _ (List.mem_of_getElem? (i := 6) rfl))
  have hfinished := time (hget _ (List.mem_of_getElem? (i := 7) rfl))
  have hpolicy := enumeration (hget _ (List.mem_of_getElem? (i := 9) rfl))
  have hretries := count (hget _ (List.mem_of_getElem? (i := 10) rfl))
  have hrestarts := count (hget _ (List.mem_of_getElem? (i := 11) rfl))
  have hhealth := enumeration (hget _ (List.mem_of_getElem? (i := 12) rfl))
  have hcontrollable := bool (hget _ (List.mem_of_getElem? (i := 13) rfl))
  have hproject := text (hget _ (List.mem_of_getElem? (i := 14) rfl))
  have hservice := text (hget _ (List.mem_of_getElem? (i := 15) rfl))
  have hremovable := bool (hget _ (List.mem_of_getElem? (i := 16) rfl))
  cases i
  cases i'
  congr

/-- A message begins with its name, and no other record has that number. -/
theorem marked_records (h : i.name ≠ "") : Marked (fun r => r.number == 1) (records schema i) := by
  have hname : implicit "" ofString i.name = some (ofString i.name) := if_neg h
  refine ⟨⟨1, ofString i.name⟩, records schema.tail i, ?_, rfl, fun r hr => ?_⟩
  · exact records_of_some hname
  · have hnumber : r.number ∈ schema.tail.map Prod.fst := number_of_mem_records hr
    have hne : r.number ≠ 1 := by
      intro heq
      exact absurd (heq ▸ hnumber) (by decide)
    simpa using hne

end ContainerInfo

theorem digestInput_eq (infos : List ContainerInfo) :
    digestInput infos = encode (infos.flatMap (records ContainerInfo.schema)) :=
  List.flatMap_assoc.symm

theorem eq_of_digestInput_eq {infos infos' : List ContainerInfo} (h : ∀ i ∈ infos, i.name ≠ "")
    (h' : ∀ i ∈ infos', i.name ≠ "") (heq : digestInput infos = digestInput infos') :
    infos = infos' := by
  rw [digestInput_eq, digestInput_eq] at heq
  have hrecords : infos.flatMap (records ContainerInfo.schema) =
      infos'.flatMap (records ContainerInfo.schema) := encode_injective heq
  have hmap := map_eq_of_flatMap_eq (fun i hi => ContainerInfo.marked_records (h i hi))
    (fun i hi => ContainerInfo.marked_records (h' i hi)) hrecords
  exact List.map_injective_iff.mpr (fun _ _ => ContainerInfo.eq_of_records_eq) hmap

/-- **Equal input, equal containers**, in number, order and every field, if all have names. -/
theorem digestInput_eq_iff {infos infos' : List ContainerInfo} (h : ∀ i ∈ infos, i.name ≠ "")
    (h' : ∀ i ∈ infos', i.name ≠ "") : digestInput infos = digestInput infos' ↔ infos = infos' := by
  constructor
  · exact eq_of_digestInput_eq h h'
  · intro heq
    rw [heq]

/-- Two containers and the second one alone. -/
theorem digestInput_ne_two :
    digestInput [{ name := "web", state := 2 }, { name := "db", exitCode := some 0 }] ≠
      digestInput [{ name := "db", exitCode := some 0 }] :=
  (digestInput_eq_iff (by decide) (by decide)).not.mpr (by decide)

end KeelsonDocker.Proto

namespace KeelsonDocker

open Effect

/-! ### The digest of the publisher -/

/-- The integer is a value of the field's type. -/
def Within (low high n : Int) : Prop := low ≤ n ∧ n < high

/-- A time the protobuf runtime can hold. -/
def Timestamp.Fits (t : Timestamp) : Prop :=
  Within (-2 ^ 63) (2 ^ 63) t.seconds ∧ Within (-2 ^ 31) (2 ^ 31) t.nanos

/-- A description the protobuf runtime can hold. -/
structure ContainerInfo.Fits (i : ContainerInfo) : Prop where
  createdAt : ∀ t ∈ i.createdAt, t.Fits
  startedAt : ∀ t ∈ i.startedAt, t.Fits
  finishedAt : ∀ t ∈ i.finishedAt, t.Fits
  exitCode : ∀ n ∈ i.exitCode, Within (-2 ^ 31) (2 ^ 31) n
  maxRetries : Within 0 (2 ^ 32) i.restartPolicyMaxRetries
  restartCount : Within 0 (2 ^ 32) i.restartCount

section

variable {n n' : Int} {t t' : Timestamp} {i i' : ContainerInfo}

theorem within_of_assignInt {low high : Int} (h : assignInt low high n = .ok n') :
    Within low high n' := by
  obtain ⟨hrange, rfl⟩ := assignInt_eq_ok.mp h
  exact hrange

theorem fits_of_parseDockerTime {pb : Protobuf} {raw : PyVal}
    (hpb : ∀ value t, pb.timestampFromJson value = some t → t.Fits) :
    ∀ t ∈ parseDockerTime pb raw, t.Fits := by
  intro t ht
  unfold parseDockerTime at ht
  split at ht
  · rename_i value
    split at ht
    · cases ht
    · split at ht
      · cases ht
      · rename_i ts hts
        split at ht
        · cases ht
        · cases ht
          exact hpb value t hts
  · cases ht

theorem fits_of_exitCode {pb : Protobuf} {state : PyVal} {code : Option Int}
    (h : exitCode pb state = .ok code) : ∀ n ∈ code, Within (-2 ^ 31) (2 ^ 31) n := by
  obtain ⟨finished, _, h⟩ := bind_eq_ok.mp h
  intro n hn
  split at h
  · cases h
    cases hn
  · obtain ⟨raw, _, h⟩ := bind_eq_ok.mp h
    obtain ⟨m, hm, rfl⟩ := map_eq_ok.mp h
    cases hn
    exact within_of_assignInt hm

/-- The numbers of a description were checked when they were assigned. -/
theorem buildContainerInfo_fits {pb : Protobuf}
    (hpb : ∀ value t, pb.timestampFromJson value = some t → t.Fits) (s : ContainerSnapshot)
    (a b : Bool) : Yields ContainerInfo.Fits (buildContainerInfo pb s a b) := by
  intro i h
  unfold buildContainerInfo at h
  iterate 12 obtain ⟨_, -, h⟩ := bind_eq_ok.mp h
  obtain ⟨maxRetries, hretries, h⟩ := bind_eq_ok.mp h
  obtain ⟨restartCount, hcount, h⟩ := bind_eq_ok.mp h
  iterate 3 obtain ⟨_, -, h⟩ := bind_eq_ok.mp h
  obtain ⟨code, hcode, h⟩ := bind_eq_ok.mp h
  cases h
  exact {
    createdAt := fits_of_parseDockerTime hpb
    startedAt := fits_of_parseDockerTime hpb
    finishedAt := fits_of_parseDockerTime hpb
    exitCode := fits_of_exitCode hcode
    maxRetries := within_of_assignInt hretries
    restartCount := within_of_assignInt hcount }

theorem int32_ofInt_inj (h : Within (-2 ^ 31) (2 ^ 31) n) (h' : Within (-2 ^ 31) (2 ^ 31) n')
    (heq : Int32.ofInt n = Int32.ofInt n') : n = n' := by
  rw [← Int32.toInt_ofInt_of_le h.1 h.2, heq, Int32.toInt_ofInt_of_le h'.1 h'.2]

theorem int64_ofInt_inj (h : Within (-2 ^ 63) (2 ^ 63) n) (h' : Within (-2 ^ 63) (2 ^ 63) n')
    (heq : Int64.ofInt n = Int64.ofInt n') : n = n' := by
  rw [← Int64.toInt_ofInt_of_le h.1 h.2, heq, Int64.toInt_ofInt_of_le h'.1 h'.2]

theorem uint32_ofNat_inj (h : Within 0 (2 ^ 32) n) (h' : Within 0 (2 ^ 32) n')
    (heq : UInt32.ofNat n.toNat = UInt32.ofNat n'.toNat) : n = n' := by
  have hlt {n : Int} (h : Within 0 (2 ^ 32) n) : n.toNat < UInt32.size := by
    unfold Within at h
    unfold UInt32.size
    omega
  have htoNat : n.toNat = n'.toNat := by
    rw [← UInt32.toNat_ofNat_of_lt' (hlt h), heq, UInt32.toNat_ofNat_of_lt' (hlt h')]
  have hpos := h.1
  have hpos' := h'.1
  omega

theorem Timestamp.proto_inj (h : t.Fits) (h' : t'.Fits) (heq : t.proto = t'.proto) : t = t' := by
  rw [Timestamp.proto, Timestamp.proto, Proto.Timestamp.mk.injEq] at heq
  have hseconds := int64_ofInt_inj h.1 h'.1 heq.1
  have hnanos := int32_ofInt_inj h.2 h'.2 heq.2
  cases t
  cases t'
  congr

theorem ContainerState.number_injective : Function.Injective ContainerState.number := by
  intro a b h
  cases a <;> cases b <;> first | rfl | exact absurd h (by decide)

theorem RestartPolicy.number_injective : Function.Injective RestartPolicy.number := by
  intro a b h
  cases a <;> cases b <;> first | rfl | exact absurd h (by decide)

theorem HealthStatus.number_injective : Function.Injective HealthStatus.number := by
  intro a b h
  cases a <;> cases b <;> first | rfl | exact absurd h (by decide)

/-- An optional field that can be held is told by what is held of it. -/
theorem option_map_inj {α β : Type} {f : α → β} {P : α → Prop} {o o' : Option α}
    (hf : ∀ a b, P a → P b → f a = f b → a = b) (h : ∀ a ∈ o, P a) (h' : ∀ a ∈ o', P a)
    (heq : o.map f = o'.map f) : o = o' := by
  cases o with
  | none =>
    cases o' with
    | none => rfl
    | some b => cases heq
  | some a =>
    cases o' with
    | none => cases heq
    | some b => rw [hf a b (h a rfl) (h' b rfl) (Option.some.inj heq)]

theorem ContainerInfo.proto_inj (h : i.Fits) (h' : i'.Fits) (heq : i.proto = i'.proto) : i = i' := by
  rw [ContainerInfo.proto, ContainerInfo.proto, Proto.ContainerInfo.mk.injEq] at heq
  obtain ⟨hname, hid, himage, hstate, hraw, hcreated, hstarted, hfinished, hcode, hpolicy, hretries,
    hcount, hhealth, hcontrollable, hproject, hservice, hremovable⟩ := heq
  have time := @option_map_inj _ _ Timestamp.proto Timestamp.Fits
  replace hcreated := time (fun _ _ => Timestamp.proto_inj) h.createdAt h'.createdAt hcreated
  replace hstarted := time (fun _ _ => Timestamp.proto_inj) h.startedAt h'.startedAt hstarted
  replace hfinished := time (fun _ _ => Timestamp.proto_inj) h.finishedAt h'.finishedAt hfinished
  replace hcode := option_map_inj (fun _ _ => int32_ofInt_inj) h.exitCode h'.exitCode hcode
  replace hretries := uint32_ofNat_inj h.maxRetries h'.maxRetries hretries
  replace hcount := uint32_ofNat_inj h.restartCount h'.restartCount hcount
  replace hstate := ContainerState.number_injective hstate
  replace hpolicy := RestartPolicy.number_injective hpolicy
  replace hhealth := HealthStatus.number_injective hhealth
  cases i
  cases i'
  congr

theorem ContainerInfo.map_proto_inj {infos infos' : List ContainerInfo} (h : ∀ i ∈ infos, i.Fits)
    (h' : ∀ i ∈ infos', i.Fits)
    (heq : infos.map ContainerInfo.proto = infos'.map ContainerInfo.proto) : infos = infos' := by
  induction infos generalizing infos' with
  | nil => exact (List.map_eq_nil_iff.mp heq.symm).symm
  | cons i infos ih =>
    cases infos' with
    | nil => cases heq
    | cons i' infos' =>
      rw [List.map_cons, List.map_cons, List.cons.injEq] at heq
      have hi := proto_inj (h i List.mem_cons_self) (h' i' List.mem_cons_self) heq.1
      rw [hi, ih (fun j hj => h j (List.mem_cons_of_mem i hj))
        (fun j hj => h' j (List.mem_cons_of_mem i' hj)) heq.2]

end

namespace ContainerStatusPublisher

/-- With a hash that has no collisions, the publisher's digests tell its lists apart. -/
theorem digestWith_eq_iff {hash : Bytes → δ} (hhash : Function.Injective hash)
    {infos infos' : List ContainerInfo} (h : ∀ i ∈ infos, i.name ≠ "" ∧ i.Fits)
    (h' : ∀ i ∈ infos', i.name ≠ "" ∧ i.Fits) :
    digestWith hash infos = digestWith hash infos' ↔ infos = infos' := by
  have named {infos : List ContainerInfo} (h : ∀ i ∈ infos, i.name ≠ "" ∧ i.Fits) :
      ∀ i ∈ infos.map ContainerInfo.proto, i.name ≠ "" := by
    intro i hi
    obtain ⟨j, hj, rfl⟩ := List.mem_map.mp hi
    exact (h j hj).1
  constructor
  · intro heq
    have hproto := Proto.eq_of_digestInput_eq (named h) (named h') (hhash heq)
    exact ContainerInfo.map_proto_inj (fun i hi => (h i hi).2) (fun i hi => (h' i hi).2) hproto
  · intro heq
    rw [heq]

end ContainerStatusPublisher

end KeelsonDocker
