/-
  Objects.PartNumber — GET with a part number.

  Mirrors the `Mpu` case of `get_object_content` in `get_object.rs` with the query `partNumber`: the
  part is taken from the listing by its position, not by its number.
-/

import FractalBits.Objects.Multipart
import FractalBits.Objects.RangeParts

namespace FractalBits.Objects

open Lib Streaming Gateway List
open OvrMap (Uuid)

/-! ## §1. The part of the request -/

/-- `swap_remove(n as usize - 1)`; what it leaves is not used. -/
def swapRemoved (n : UInt32) (mpus : List (Bytes × Layout)) : Except Fault (Bytes × Layout) := do
  let index ← checkedSub n.toNat 1
  match mpus[index]? with
  | some mpuObj => return mpuObj
  | none => throw .panic

def selectMpus (partNumber : Option UInt32) (core : ObjectCoreMetaData)
    (mpus : List (Bytes × Layout)) :
    Except Fault (List (Bytes × Layout) × Nat) :=
  match partNumber with
  | none => return (mpus, core.size)
  | some n => do
    let mpuObj ← swapRemoved n mpus
    let mpuSize ← mpuObj.2.size.mapError fun e => Fault.s3 e.toS3Error
    return ([mpuObj], mpuSize)

def getObjectContentOf (rounds : Nat) (key : Bytes) (object : Layout) (partNumber : Option UInt32) :
    Call (Except Fault (Body × Nat)) :=
  match object.state with
  | .mpu (.completed core) => do
    let client ← perform Op.getBlobClient
    if client = false then return .error (.s3 .internalError)
    else
      match ← (listRawObjects rounds 10000 (mpuGetPartPrefix key object.versionId 0) []).run with
      | .error e => return .error (.s3 e)
      | .ok mpus =>
        match selectMpus partNumber core mpus with
        | .error fault => return .error fault
        | .ok (mpusVec, bodySize) => do
          let items ← partsStream (fullPart rounds) mpusVec
          return .ok (items, bodySize)
  | _ => do
    -- the number is not looked at
    let content ← (getObjectContent rounds key object).run
    return content.mapError .s3

/-! ## §2. The answer -/

def SelectsByNumber (cluster : Cluster) (rounds : Nat) (key : Bytes) (object : Layout)
    (parts : List PartBody) (s : Site) (n : UInt32) : Prop :=
  (∀ body ∈ parts, body.number = n.toNat →
      ((getObjectContentOf rounds key object (some n)).exec cluster.answer s).1
        = .ok (body.blocks.map .ok, body.blocks.flatten.length))
    ∧ ((∀ body ∈ parts, body.number ≠ n.toNat) →
      ∃ e, ((getObjectContentOf rounds key object (some n)).exec cluster.answer s).1 = .error
        (.s3 e))

section

variable {cluster : Cluster} {rounds : Nat} {key : Bytes} {completed : Layout}
  {core : ObjectCoreMetaData} {parts : List PartBody} {s : Site}

def answerAt (listed : List PartBody) (n : UInt32) : Except Fault (Body × Nat) :=
  if n.toNat = 0 then .error .panic
  else
    match listed[n.toNat - 1]? with
    | some body => .ok (body.blocks.map .ok, body.blocks.flatten.length)
    | none => .error .panic

theorem unchanging_getObjectContentOf (partNumber : Option UInt32) :
    Unchanging cluster (fun _ _ => True) s (getObjectContentOf rounds key completed
      partNumber) := by
  unfold getObjectContentOf
  split
  · refine (unchanging_perform rfl).bind fun client _ => ?_
    split
    · exact trivial
    · refine (unchanging_of_follows (readable_readOnly.listRawObjects trivial 10000 [])).bind
        fun mpus _ => ?_
      split
      · exact trivial
      · split
        · exact trivial
        · exact (unchanging_of_follows
            (Readable.partsStream fun part _ => readable_readOnly.fullPart trivial)).bind fun _ _ =>
              trivial
  · exact (unchanging_of_follows (readable_readOnly.getObjectContent trivial trivial)).bind
      fun _ _ => trivial

theorem swapRemoved_eq (n : UInt32) (mpus : List (Bytes × Layout)) :
    swapRemoved n mpus = if n.toNat = 0 then .error .panic
      else match mpus[n.toNat - 1]? with
        | some mpuObj => .ok mpuObj
        | none => .error .panic := by
  unfold swapRemoved
  by_cases hzero : n.toNat = 0
  · rw [if_pos hzero, hzero]
    rfl
  · rw [if_neg hzero, checkedSub_ok (Nat.one_le_iff_ne_zero.mpr hzero)]
    rfl

theorem selectMpus_listed {listed : List PartBody} {stores : BlobStores}
    (hwhole : ∀ body ∈ listed, Whole cluster.impl stores body.upload.stored body.blocks)
    (versionId : Uuid) (n : UInt32) :
    selectMpus (some n) core (listed.map fun body => partEntry key versionId body.part)
      = if n.toNat = 0 then .error .panic
        else match listed[n.toNat - 1]? with
          | some body => .ok ([partEntry key versionId body.part], body.blocks.flatten.length)
          | none => .error .panic := by
  show (swapRemoved n _ >>= _) = _
  rw [swapRemoved_eq, List.getElem?_map]
  by_cases hzero : n.toNat = 0
  · rw [if_pos hzero, if_pos hzero]
    rfl
  · rw [if_neg hzero, if_neg hzero]
    cases hget : listed[n.toNat - 1]? with
    | none => rfl
    | some body =>
      have hsize : body.upload.stored.size = .ok body.blocks.flatten.length :=
        (hwhole body (mem_of_getElem? hget)).size
      show (body.upload.stored.size.mapError (fun e => Fault.s3 e.toS3Error) >>= fun size =>
        pure ([partEntry key versionId body.part], size)) = _
      rw [hsize]
      rfl

variable (h : CompletedUpload cluster key completed core parts s)

include h

theorem exec_getPart (n : UInt32) :
    ((getObjectContentOf rounds key completed (some n)).exec cluster.answer s).1
      = answerAt (parts.take (min 10000 cluster.clamp)) n := by
  generalize hlisted : parts.take (min 10000 cluster.clamp) = listed
  have hmem : ∀ body ∈ listed, body ∈ parts := by
    intro body hbody
    rw [← hlisted] at hbody
    exact mem_of_mem_take hbody
  have hnumbers : ∀ part ∈ listed.map PartBody.part, IsPartNumber part.1 := by
    intro part hpart
    obtain ⟨body, hbody, rfl⟩ := mem_map.mp hpart
    exact h.numbers _ (mem_map_of_mem (hmem body hbody))
  have hpage : (cluster.listPage s.inodes 10000 (mpuGetPartPrefix key completed.versionId 0) []).1
      = (listed.map PartBody.part).map (partInode key completed.versionId) := by
    rw [h.holds.page h.numbers h.sorted, ← hlisted, storedParts]
    simp only [map_take]
  -- nothing changes during the GET, so the rules for steady sites apply
  have hfrozen : Frozen cluster (fun _ => s) 0 key completed (listed.map PartBody.part) s.stores :=
    ⟨fun _ _ => h.inode, fun _ _ => hpage, fun _ _ _ _ _ _ _ _ => rfl⟩
  have hclient : Steady (At cluster fun _ => s) 0 (perform Op.getBlobClient) true :=
    steady_perform fun u ans _ hans => hans
  have hsteady : Steady (At cluster fun _ => s) 0 (getObjectContentOf rounds key completed (some n))
    (answerAt listed n) := by
    unfold getObjectContentOf
    rw [h.state]
    refine hclient.bind ?_
    rw [if_neg Bool.noConfusion]
    refine (hfrozen.steady_list hnumbers).bind ?_
    dsimp only
    rw [map_map, show partEntry key completed.versionId ∘ PartBody.part
        = fun body => partEntry key completed.versionId body.part from rfl,
      selectMpus_listed (fun body hbody => h.whole body (hmem body hbody))]
    unfold answerAt
    -- `n as usize - 1` underflows for zero, and `swap_remove` faults behind the end
    by_cases hzero : n.toNat = 0
    · rw [if_pos hzero, if_pos hzero]
      exact steady_done _
    · rw [if_neg hzero, if_neg hzero]
      cases hget : listed[n.toNat - 1]? with
      | none => exact steady_done _
      | some body =>
        have hbody := mem_of_getElem? hget
        have hitems : ∀ x ∈ [body], Steady (At cluster fun _ => s) 0
            (fullPart rounds (partEntry key completed.versionId x.part)).run
              (.ok (x.blocks.map .ok)) := by
          intro x hx
          rw [mem_singleton.mp hx]
          exact hfrozen.steady_part (mem_map_of_mem hbody) (h.whole body (hmem body hbody))
        refine (steady_partsStream hitems).bind ?_
        rw [flatMap_singleton]
        exact steady_done _
  exact (hsteady.exec (unchanging_getObjectContentOf _) (fun _ => trivial) fun _ => rfl :)

/-! ## §3. Numbers and positions -/

omit h in
theorem number_at_position {parts : List PartBody} {n k : Nat}
    (hnumbers : ∀ body ∈ parts, k < body.number)
    (hsorted : parts.Pairwise fun p q => p.number < q.number)
    (hall : ∀ m, k < m → m ≤ k + n + 1 → ∃ body ∈ parts, body.number = m) :
    ∃ body, parts[n]? = some body ∧ body.number = k + n + 1 := by
  induction n generalizing parts k with
  | zero =>
    obtain ⟨body, hbody, hnumber⟩ := hall (k + 1) (by omega) (by omega)
    cases parts with
    | nil => cases hbody
    | cons first parts =>
      refine ⟨first, rfl, ?_⟩
      rcases mem_cons.mp hbody with rfl | hmem
      · exact hnumber
      · have hlt := (pairwise_cons.mp hsorted).1 body hmem
        have hfirst := hnumbers first mem_cons_self
        omega
  | succ n ih =>
    obtain ⟨body, hbody, hnumber⟩ := hall (k + 1) (by omega) (by omega)
    cases parts with
    | nil => cases hbody
    | cons first parts =>
      obtain ⟨hbehind, hsorted⟩ := pairwise_cons.mp hsorted
      -- the smallest number is the one after `k`
      have hfirst : first.number = k + 1 := by
        rcases mem_cons.mp hbody with rfl | hmem
        · exact hnumber
        · have hlt := hbehind body hmem
          have hpos := hnumbers first mem_cons_self
          omega
      obtain ⟨last, hget, hlast⟩ := ih (k := k + 1) (fun x hx => hfirst ▸ hbehind x hx) hsorted
        (fun m hlow hhigh => by
        obtain ⟨x, hx, hxm⟩ := hall m (by omega) (by omega)
        rcases mem_cons.mp hx with rfl | hx
        · omega
        · exact ⟨x, hx, hxm⟩)
      exact ⟨last, hget, by omega⟩

theorem CompletedUpload.positive :
    ∀ body ∈ parts, IsPartNumber body.number :=
  fun _ hbody => h.numbers _ (mem_map_of_mem hbody)

theorem CompletedUpload.ascending :
    parts.Pairwise fun p q => p.number < q.number := by
  have hstored := h.sorted
  unfold storedParts at hstored
  rw [pairwise_map] at hstored
  exact hstored

theorem selectsByNumber_iff (rounds : Nat) (n : UInt32) :
    SelectsByNumber cluster rounds key completed parts s n
      ↔ ∃ body ∈ parts, body.number = n.toNat ∧ ∃ other,
        (parts.take (min 10000 cluster.clamp))[n.toNat - 1]? = some other
          ∧ other.blocks = body.blocks := by
  unfold SelectsByNumber
  rw [exec_getPart h]
  unfold answerAt
  constructor
  · rintro ⟨hpart, hnone⟩
    by_cases hexists : ∃ body ∈ parts, body.number = n.toNat
    · obtain ⟨body, hbody, hnumber⟩ := hexists
      have hanswer := hpart body hbody hnumber
      have hzero : n.toNat ≠ 0 := by
        have hone := (h.positive body hbody).1
        omega
      rw [if_neg hzero] at hanswer
      cases hget : (parts.take (min 10000 cluster.clamp))[n.toNat - 1]? with
      | none =>
        rw [hget] at hanswer
        cases hanswer
      | some other =>
        rw [hget] at hanswer
        -- the body of the answer is that of the part at the position
        have hblocks := congrArg Prod.fst (Except.ok.inj hanswer)
        exact ⟨body, hbody, hnumber, other, rfl, map_injective_iff.mpr (fun _ _ => Except.ok.inj)
          hblocks⟩
    · -- no part has the number, and the answer is not an error of the source
      push Not at hexists
      obtain ⟨e, he⟩ := hnone hexists
      split at he
      · cases he
      · split at he <;> cases he
  · rintro ⟨body, hbody, hnumber, other, hget, hblocks⟩
    have hzero : n.toNat ≠ 0 := by
      have hone := (h.positive body hbody).1
      omega
    rw [if_neg hzero, hget]
    refine ⟨fun body' hbody' hnumber' => ?_, fun hnone => absurd hnumber (hnone body hbody)⟩
    have hnodup : (parts.map PartBody.number).Nodup :=
      pairwise_map.mpr (h.ascending.imp Nat.ne_of_lt)
    rw [inj_on_of_nodup_map hnodup hbody' hbody (hnumber'.trans hnumber.symm)]
    dsimp only
    rw [hblocks]

omit h in
/-- ★ **When a part number selects the part of that number.** The answer is right exactly if there
    is such a part, and what is listed at that position has the same content; it is so if all
    numbers up to it are there, and listed. -/
theorem part_number_iff (h : CompletedUpload cluster key completed core parts s) (rounds : Nat)
    (n : UInt32) :
    (SelectsByNumber cluster rounds key completed parts s n
      ↔ ∃ body ∈ parts, body.number = n.toNat ∧ ∃ other,
        (parts.take (min 10000 cluster.clamp))[n.toNat - 1]? = some other
          ∧ other.blocks = body.blocks)
      ∧ ((∀ m, 1 ≤ m → m ≤ n.toNat → ∃ body ∈ parts, body.number = m) → 1 ≤ n.toNat →
        n.toNat ≤ cluster.clamp →
        SelectsByNumber cluster rounds key completed parts s n) := by
  refine ⟨selectsByNumber_iff h rounds n, fun hall hpos hclamp =>
    (selectsByNumber_iff h rounds n).mpr ?_⟩
  -- with all numbers up to `n` there, the part of number `n` is at its position
  obtain ⟨body, hget, hnumber⟩ := number_at_position (n := n.toNat - 1) (k := 0)
    (fun x hx => (h.positive x hx).1) h.ascending (fun m hlow hhigh => hall m hlow (by omega))
  refine ⟨body, mem_of_getElem? hget, by omega, body, ?_, rfl⟩
  have hlarge := (h.positive body (mem_of_getElem? hget)).2
  rw [List.getElem?_take_of_lt (by omega), hget]

end

def gappedBodies : List PartBody :=
  [⟨1, blockUpload sampleCluster.impl 1 [7], [[7]]⟩, ⟨3, blockUpload sampleCluster.impl 3 [9],
    [[9]]⟩]

def gappedNaming : CompleteRequest := { sampleCompletion with partNumbers := .ok [1, 3] }

theorem session_gappedBodies :
    Session sampleCluster sampleChecksums sampleParse (ascii "/k") 1 gappedBodies gappedBodies
      gappedNaming emptySite where
  accepted := by decide
  parsed := rfl
  numbers := by
    intro body hbody
    simp only [gappedBodies, mem_cons, not_mem_nil, or_false] at hbody
    rcases hbody with rfl | rfl <;> exact ⟨by decide, by decide⟩
  sorted := by
    unfold gappedBodies
    simp
  sound := by
    intro body hbody
    simp only [gappedBodies, mem_cons, not_mem_nil, or_false] at hbody
    rcases hbody with rfl | rfl <;> exact blockUpload_sound _ _ _ (by decide) (by decide)
  blobs := by
    unfold gappedBodies
    simp only [pairwise_cons, mem_cons, not_mem_nil, or_false, forall_eq, List.Pairwise.nil,
      and_true, IsEmpty.forall_iff, implies_true]
    decide
  uploaded := List.Perm.refl _
  fresh := by
    intro k value hvalue
    unfold emptySite at hvalue
    rw [Std.ExtTreeMap.getElem?_empty] at hvalue
    cases hvalue
  headers := ⟨_, rfl⟩
  named := ⟨_, rfl, fun n => Iff.rfl⟩
  checksum := nofun

theorem part_number_at_sample :
    ∃ completed s',
      ((multipartUpload 0 sampleParse (ascii "/k") sampleChecksums 1 0 gappedBodies
        gappedNaming).run.exec sampleCluster.answer emptySite) = (.ok completed, s')
      ∧ SelectsByNumber sampleCluster 0 (ascii "/k") completed gappedBodies s' 1 := by
  obtain ⟨completed, core, s', hexec, -, -, hdone⟩ := session_gappedBodies.completedUpload
    (by decide) 0 0
  refine ⟨completed, s', hexec, ((part_number_iff hdone 0 1).1.mpr ?_)⟩
  exact ⟨_, mem_cons_self, rfl, _, rfl, rfl⟩

theorem part_number_is_position :
    ∃ completed s',
      ((multipartUpload 0 sampleParse (ascii "/k") sampleChecksums 1 0 gappedBodies
        gappedNaming).run.exec sampleCluster.answer emptySite) = (.ok completed, s')
      ∧ ((getObjectContentOf 0 (ascii "/k") completed (some 0)).exec sampleCluster.answer s').1
        = .error .panic
      ∧ ((getObjectContentOf 0 (ascii "/k") completed (some 3)).exec sampleCluster.answer s').1
        = .error .panic
      ∧ ((getObjectContentOf 0 (ascii "/k") completed (some 2)).exec sampleCluster.answer s').1
        = .ok ([.ok [9]], 1)
      ∧ ¬ SelectsByNumber sampleCluster 0 (ascii "/k") completed gappedBodies s' 2
      ∧ ¬ SelectsByNumber sampleCluster 0 (ascii "/k") completed gappedBodies s' 3 := by
  obtain ⟨completed, core, s', hexec, -, -, hdone⟩ := session_gappedBodies.completedUpload
    (by decide) 0 0
  have hthree : ((getObjectContentOf 0 (ascii "/k") completed (some 3)).exec sampleCluster.answer
      s').1 = .error .panic := by
    rw [exec_getPart hdone]
    rfl
  have htwo : ((getObjectContentOf 0 (ascii "/k") completed (some 2)).exec sampleCluster.answer
      s').1 = .ok ([.ok [9]], 1) := by
    rw [exec_getPart hdone]
    rfl
  refine ⟨completed, s', hexec, ?_, hthree, htwo, ?_, ?_⟩
  · rw [exec_getPart hdone]
    rfl
  · rintro ⟨-, hnone⟩
    obtain ⟨e, he⟩ := hnone fun body hbody => by
      simp only [gappedBodies, mem_cons, not_mem_nil, or_false] at hbody
      rcases hbody with rfl | rfl <;> decide
    cases htwo.symm.trans he
  · rintro ⟨hpart, -⟩
    have hlast := hpart ⟨3, blockUpload sampleCluster.impl 3 [9], [[9]]⟩
      (mem_cons_of_mem _ mem_cons_self) rfl
    cases hthree.symm.trans hlast

end FractalBits.Objects
