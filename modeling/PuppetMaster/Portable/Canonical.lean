/-
  PuppetMaster.Portable.Canonical — what `PortableReader` accepts has one encoding.

  `readerVisit_takes`: a visit that ends without an error has taken exactly the bytes of the
  value it leaves, whatever it was given. `wire_append_inj`: no encoding is the beginning of
  another one of the same type, so a message says where each value ends. Together they give
  `portable_encoding_is_canonical`.
-/

import PuppetMaster.Portable.RoundTrip

namespace PuppetMaster.Portable

open PuppetMaster.Core
open PuppetMaster.Lib hiding Ahead
open PortableReader (Ahead)

/-! ## What the reader takes -/

/-- A reader inside its message, with no error. -/
structure PortableReader.Reads (r : PortableReader) : Prop where
  ok : r.status.isOk = true
  within : r.offset ≤ r.bytes.length

/-- `r'` is `r` past the bytes `front`, which it had before it. -/
structure PortableReader.Took (r r' : PortableReader) (front : Bytes) : Prop where
  ahead : ∃ rest, Ahead r front rest
  past : r' = r.advance front.length

variable {r r' r'' : PortableReader} {front back : Bytes}

theorem PortableReader.Took.reads (h : r.Took r' front) : r'.Reads := by
  obtain ⟨⟨rest, hahead⟩, rfl⟩ := h
  have hnext : Ahead (r.advance front.length) [] rest := by
    refine PortableReader.Ahead.next ?_
    rwa [List.append_nil]
  exact ⟨hnext.ok, hnext.at_offset.within⟩

theorem PortableReader.Took.nil (h : r.Reads) : r.Took r [] :=
  ⟨⟨r.bytes.drop r.offset, h.ok, h.within, rfl⟩, rfl⟩

theorem PortableReader.Took.append (h : r.Took r' front) (h' : r'.Took r'' back) : r.Took r'' (front ++ back) := by
  obtain ⟨⟨rest, hahead⟩, rfl⟩ := h
  obtain ⟨⟨rest', hahead'⟩, rfl⟩ := h'
  refine ⟨⟨rest', hahead.ok, hahead.at_offset.append hahead'.at_offset⟩, ?_⟩
  rw [PortableReader.advance_advance, List.length_append]

/-- A visit that ends without an error has taken the bytes of the value it leaves. -/
def Takes {α : Type} (visit : α → PortableReader → α × PortableReader) (bytes : α → Bytes) (good : α → Prop) : Prop :=
  ∀ into r, r.Reads → (visit into r).2.status.isOk = true →
    good (visit into r).1 ∧ r.Took (visit into r).2 (bytes (visit into r).1)

theorem take_took {size : Nat} (h : r.Reads) (hok : (r.take size).2.status.isOk = true) :
    (r.take size).1 < 256 ^ size ∧ r.Took (r.take size).2 (putLe size (r.take size).1) := by
  unfold PortableReader.take at hok ⊢
  split at hok
  · cases hok
  · rename_i hroom
    have hlen : ((r.bytes.drop r.offset).take size).length = size := Lib.length_taken (Nat.not_lt.mp hroom)
    rw [if_neg hroom]
    have hbytes := putLe_getLe ((r.bytes.drop r.offset).take size)
    have hlt := getLe_lt ((r.bytes.drop r.offset).take size)
    rw [hlen] at hbytes hlt
    refine ⟨hlt, ⟨(r.bytes.drop r.offset).drop size, h.ok, h.within, ?_⟩, ?_⟩
    · rw [hbytes, List.take_append_drop]
    · rw [length_putLe]
      rfl

theorem count_took {size : Nat} (h : r.Reads) (hok : (r.count size).2.status.isOk = true) :
    (r.count size).1 < 2 ^ 32 ∧ (r.count size).1 ≤ (r.count size).2.left / size
      ∧ r.Took (r.count size).2 (putLe 4 (r.count size).1) := by
  unfold PortableReader.count at hok ⊢
  dsimp only at hok ⊢
  split at hok
  · cases hok
  · rename_i hguard
    rw [if_neg hguard]
    dsimp only at hok ⊢
    obtain ⟨hlt, htook⟩ := take_took h hok
    refine ⟨hlt, ?_, htook⟩
    simpa [hok] using hguard

theorem Unsigned.val_ofBits {w bits : Nat} (h : bits < 256 ^ w) : (Unsigned.ofBits w bits).val = bits :=
  Nat.mod_eq_of_lt h

theorem Signed.toUnsigned_ofUnsigned {w : Nat} (n : Unsigned w) : (Signed.ofUnsigned n).toUnsigned = n.val := by
  have hlt := n.property
  have hpow : ((256 ^ w : Nat) : Int) = 256 ^ w := Int.natCast_pow 256 w
  unfold Signed.toUnsigned Signed.ofUnsigned
  dsimp only
  split
  · rw [Int.emod_eq_of_lt (by omega) (by omega)]
    omega
  · rw [← Int.add_emod_right, Int.sub_add_cancel, Int.emod_eq_of_lt (by omega) (by omega)]
    omega

theorem readIntegral_takes (t : Integral) :
    Takes (readIntegral t) (fun v => putLe t.scalarSize (t.scalarBits v)) fun _ => True := by
  intro into r h hok
  refine ⟨trivial, ?_⟩
  cases t with
  | bool =>
    simp only [readIntegral] at hok ⊢
    split at hok
    · cases hok
    · rename_i hguard
      rw [if_neg hguard]
      dsimp only at hok ⊢
      obtain ⟨-, htook⟩ := take_took h hok
      -- only 0 and 1 get past the guard
      have hbit : (r.take 1).1 = 0 ∨ (r.take 1).1 = 1 := by
        have : (r.take 1).1 ≤ 1 := by simpa [hok] using hguard
        omega
      rcases hbit with hbit | hbit
      · rw [hbit] at htook ⊢
        exact htook
      · rw [hbit] at htook ⊢
        exact htook
  | unsigned w =>
    simp only [readIntegral] at hok ⊢
    obtain ⟨hlt, htook⟩ := take_took h hok
    rw [Integral.scalarBits, Integral.scalarSize, Unsigned.val_ofBits hlt]
    exact htook
  | signed w =>
    simp only [readIntegral] at hok ⊢
    obtain ⟨hlt, htook⟩ := take_took h hok
    rw [Integral.scalarBits, Integral.scalarSize, Signed.toUnsigned_ofUnsigned, Unsigned.val_ofBits hlt]
    exact htook

theorem readScalar_takes (t : Scalar) :
    Takes (readScalar t) (fun v => putLe t.scalarSize (t.scalarBits v)) fun _ => True := by
  intro into r h hok
  cases t with
  | integral t => exact readIntegral_takes t into r h hok
  | float =>
    simp only [readScalar] at hok ⊢
    obtain ⟨hlt, htook⟩ := take_took h hok
    rw [Scalar.scalarBits, Scalar.scalarSize, Unsigned.val_ofBits hlt]
    exact ⟨trivial, htook⟩
  | double =>
    simp only [readScalar] at hok ⊢
    obtain ⟨hlt, htook⟩ := take_took h hok
    rw [Scalar.scalarBits, Scalar.scalarSize, Unsigned.val_ofBits hlt]
    exact ⟨trivial, htook⟩
  | enum t => exact readIntegral_takes t t.default r h hok

/-- An error stays, so a visit that ends without one began without one. -/
theorem Sticky.began_ok {α : Type} {visit : α → PortableReader → α × PortableReader} (hvisit : Sticky visit) {into : α}
    (h : (visit into r).2.status.isOk = true) : r.status.isOk = true := by
  by_contra hnot
  rw [hvisit into r (by simpa using hnot)] at h
  exact hnot h

theorem visitAll_takes {α : Type} {visit : α → PortableReader → α × PortableReader} {bytes : α → Bytes}
    {good : α → Prop} (hsticky : Sticky visit) (hvisit : Takes visit bytes good) :
    Takes (visitAll visit) (fun vs => vs.flatMap bytes) fun vs => ∀ v ∈ vs, good v := by
  intro into
  induction into with
  | nil =>
    intro r h _
    exact ⟨fun _ hv => absurd hv List.not_mem_nil, PortableReader.Took.nil h⟩
  | cons v vs ih =>
    intro r h hok
    simp only [visitAll] at hok ⊢
    obtain ⟨hgood, htook⟩ := hvisit v r h ((visitAll_sticky hsticky).began_ok hok)
    obtain ⟨hgoods, htooks⟩ := ih _ htook.reads hok
    refine ⟨?_, ?_⟩
    · intro u hu
      rcases List.mem_cons.mp hu with rfl | hu
      · exact hgood
      · exact hgoods u hu
    · rw [List.flatMap_cons]
      exact htook.append htooks

mutual

theorem readerVisit_takes : ∀ t : FieldType, Takes (readerVisit t) (wire t) (CountsBelow t)
  | .scalar s => by
    intro into r h hok
    simp only [readerVisit, h.ok, Bool.not_true, Bool.false_eq_true, if_false] at hok ⊢
    exact ⟨trivial, (readScalar_takes s into r h hok).2⟩
  | .string => by
    intro (into : Bytes) r h hok
    simp only [readerVisit, h.ok, Bool.not_true, Bool.false_eq_true, if_false] at hok ⊢
    split at hok
    · rename_i hcount
      rw [hok] at hcount
      cases hcount
    · rename_i hcount
      rw [if_neg hcount]
      have hcount : (r.count 1).2.status.isOk = true := by simpa using hcount
      obtain ⟨hlt, hle, htook⟩ := count_took h hcount
      rw [Nat.div_one] at hle
      have hlen : (((r.count 1).2.bytes.drop (r.count 1).2.offset).take (r.count 1).1).length = (r.count 1).1 :=
        Lib.length_taken hle
      dsimp only
      simp only [CountsBelow, wire, hlen]
      refine ⟨hlt, htook.append ⟨⟨_, hcount, htook.reads.within, (List.take_append_drop _ _).symm⟩, ?_⟩⟩
      rw [hlen]
      rfl
  | .vector e => by
    intro (into : List (Value e)) r h hok
    simp only [readerVisit, h.ok, Bool.not_true, Bool.false_eq_true, if_false] at hok ⊢
    split at hok
    · rename_i hcount
      rw [hok] at hcount
      cases hcount
    · rename_i hcount
      rw [if_neg hcount]
      have hcount : (r.count (elementSize e)).2.status.isOk = true := by simpa using hcount
      obtain ⟨hlt, -, htook⟩ := count_took h hcount
      obtain ⟨hgood, htooks⟩ :=
        visitAll_takes (readerVisit_sticky e) (readerVisit_takes e) _ _ htook.reads hok
      simp only [CountsBelow, wire, length_visitAll, List.length_replicate]
      exact ⟨⟨hlt, hgood⟩, htook.append htooks⟩
  | .array e n => by
    intro ⟨into, hinto⟩ r h hok
    simp only [readerVisit, h.ok, Bool.not_true, Bool.false_eq_true, if_false] at hok ⊢
    simp only [CountsBelow, wire]
    exact visitAll_takes (readerVisit_sticky e) (readerVisit_takes e) into r h hok
  | .nested fs => by
    intro into r h hok
    simp only [readerVisit, h.ok, Bool.not_true, Bool.false_eq_true, if_false] at hok ⊢
    exact readerFields_takes fs into r h hok

theorem readerFields_takes : ∀ fs : List FieldType, Takes (readerFields fs) (wireFields fs) (FieldCountsBelow fs)
  | [] => fun _ _ h _ => ⟨trivial, PortableReader.Took.nil h⟩
  | f :: fs => by
    intro ⟨v, vs⟩ r h hok
    simp only [readerFields] at hok ⊢
    obtain ⟨hgood, htook⟩ := readerVisit_takes f v r h ((readerFields_sticky fs).began_ok hok)
    obtain ⟨hgoods, htooks⟩ := readerFields_takes fs vs _ htook.reads hok
    simp only [FieldCountsBelow, wireFields]
    exact ⟨⟨hgood, hgoods⟩, htook.append htooks⟩

end

/-! ## No encoding begins another -/

theorem Integral.scalarBits_inj {t : Integral} {v v' : t.Value} (h : t.scalarBits v = t.scalarBits v') : v = v' := by
  cases t with
  | bool =>
    have hinj : ∀ b b' : Bool, b.toNat = b'.toNat → b = b' := by decide
    exact hinj v v' h
  | unsigned w => exact Subtype.ext h
  | signed w =>
    simp only [Integral.scalarBits] at h
    rw [← Signed.ofUnsigned_toUnsigned v, h, Signed.ofUnsigned_toUnsigned]

theorem Scalar.scalarBits_lt (t : Scalar) (v : t.Value) : t.scalarBits v < 256 ^ t.scalarSize := by
  cases t with
  | integral t => exact t.scalarBits_lt v
  | float => exact v.property
  | double => exact v.property
  | enum t => exact t.scalarBits_lt v

theorem Scalar.scalarBits_inj {t : Scalar} {v v' : t.Value} (h : t.scalarBits v = t.scalarBits v') : v = v' := by
  cases t with
  | integral t => exact Integral.scalarBits_inj h
  | float => exact Subtype.ext h
  | double => exact Subtype.ext h
  | enum t => exact Integral.scalarBits_inj h

theorem putLe_append_inj {w n n' : Nat} {rest rest' : Bytes} (hn : n < 256 ^ w) (hn' : n' < 256 ^ w)
    (h : putLe w n ++ rest = putLe w n' ++ rest') : n = n' ∧ rest = rest' := by
  obtain ⟨hput, hrest⟩ := List.append_inj h (by rw [length_putLe, length_putLe])
  refine ⟨?_, hrest⟩
  rw [← getLe_putLe_of_lt hn, hput, getLe_putLe_of_lt hn']

theorem flatMap_append_inj {α : Type} {bytes : α → Bytes} {vs vs' : List α} {rest rest' : Bytes}
    (hinj : ∀ v ∈ vs, ∀ v' ∈ vs', ∀ rest rest', bytes v ++ rest = bytes v' ++ rest' → v = v' ∧ rest = rest')
    (hlen : vs.length = vs'.length) (h : vs.flatMap bytes ++ rest = vs'.flatMap bytes ++ rest') :
    vs = vs' ∧ rest = rest' := by
  induction vs generalizing vs' with
  | nil =>
    cases List.length_eq_zero_iff.mp hlen.symm
    exact ⟨rfl, h⟩
  | cons v vs ih =>
    obtain ⟨v', vs', rfl⟩ := List.exists_cons_of_length_eq_add_one hlen.symm
    rw [List.flatMap_cons, List.flatMap_cons, List.append_assoc, List.append_assoc] at h
    obtain ⟨rfl, htail⟩ := hinj v List.mem_cons_self v' List.mem_cons_self _ _ h
    obtain ⟨rfl, hrest⟩ := ih (fun u hu u' hu' => hinj u (List.mem_cons_of_mem _ hu) u' (List.mem_cons_of_mem _ hu'))
      (Nat.succ.inj hlen) htail
    exact ⟨rfl, hrest⟩

mutual

theorem wire_append_inj : ∀ (t : FieldType) (v v' : Value t), CountsBelow t v → CountsBelow t v' →
    ∀ rest rest', wire t v ++ rest = wire t v' ++ rest' → v = v' ∧ rest = rest'
  | .scalar s, v, v', _, _, rest, rest', h => by
    simp only [wire] at h
    obtain ⟨hbits, hrest⟩ := putLe_append_inj (s.scalarBits_lt v) (s.scalarBits_lt v') h
    exact ⟨Scalar.scalarBits_inj hbits, hrest⟩
  | .string, (v : Bytes), (v' : Bytes), hv, hv', rest, rest', h => by
    simp only [CountsBelow] at hv hv'
    simp only [wire, List.append_assoc] at h
    obtain ⟨hlen, h⟩ := putLe_append_inj hv hv' h
    exact List.append_inj h hlen
  | .vector e, (vs : List (Value e)), (vs' : List (Value e)), hvs, hvs', rest, rest', h => by
    simp only [CountsBelow] at hvs hvs'
    simp only [wire, List.append_assoc] at h
    obtain ⟨hlen, h⟩ := putLe_append_inj hvs.1 hvs'.1 h
    exact flatMap_append_inj
      (fun v hv v' hv' => wire_append_inj e v v' (hvs.2 v hv) (hvs'.2 v' hv')) hlen h
  | .array e n, ⟨vs, hn⟩, ⟨vs', hn'⟩, hvs, hvs', rest, rest', h => by
    simp only [CountsBelow] at hvs hvs'
    simp only [wire] at h
    obtain ⟨hsame, hrest⟩ := flatMap_append_inj
      (fun v hv v' hv' => wire_append_inj e v v' (hvs v hv) (hvs' v' hv')) (hn.trans hn'.symm) h
    exact ⟨Subtype.ext hsame, hrest⟩
  | .nested fs, vs, vs', hvs, hvs', rest, rest', h => wireFields_append_inj fs vs vs' hvs hvs' rest rest' h

theorem wireFields_append_inj : ∀ (fs : List FieldType) (vs vs' : Values fs), FieldCountsBelow fs vs →
    FieldCountsBelow fs vs' → ∀ rest rest', wireFields fs vs ++ rest = wireFields fs vs' ++ rest' →
      vs = vs' ∧ rest = rest'
  | [], _, _, _, _, rest, rest', h => ⟨rfl, h⟩
  | f :: fs, (v, vs), (v', vs'), hvs, hvs', rest, rest', h => by
    simp only [FieldCountsBelow] at hvs hvs'
    simp only [wireFields, List.append_assoc] at h
    obtain ⟨rfl, htail⟩ := wire_append_inj f v v' hvs.1 hvs'.1 _ _ h
    obtain ⟨rfl, hrest⟩ := wireFields_append_inj fs vs vs' hvs.2 hvs'.2 _ _ htail
    exact ⟨rfl, hrest⟩

end

/-! ## One encoding for each value -/

/-- `Decode` accepts only the encoding of the value it returns. -/
theorem decode_eq_ok {typeName : Bytes} {t : FieldType} {bytes : Bytes} {value : Value t}
    (h : decode typeName t bytes = .ok value) : CountsBelow t value ∧ wire t value = bytes := by
  unfold decode at h
  dsimp only at h
  split at h
  · rename_i hfinish
    cases h
    unfold PortableReader.finish at hfinish
    split at hfinish
    · rename_i herr
      simp [hfinish] at herr
    · rename_i hok
      split at hfinish
      · cases hfinish
      · rename_i hend
        have hstart : PortableReader.Reads { bytes } := ⟨rfl, Nat.zero_le _⟩
        obtain ⟨hcounts, ⟨rest, hahead⟩, hpast⟩ :=
          readerVisit_takes t (default t) { bytes } hstart (by simpa using hok)
        rw [hpast] at hend
        simp only [PortableReader.advance, Nat.zero_add, ne_eq, not_not] at hend
        exact ⟨hcounts, hahead.at_offset.whole hend.symm⟩
  · cases h

theorem portable_encoding_is_canonical (t : PortableType) (typeName bytes : Bytes) (value : Value t.val)
    (h : decode typeName t.val bytes = .ok value) :
    maxSize t.val value = bytes.length
      ∧ (∀ buffer : Bytes, bytes.length ≤ buffer.length →
        encode t.val value buffer = (.ok bytes.length, bytes ++ buffer.drop bytes.length))
      ∧ (∀ other, decode typeName t.val other = .ok value → other = bytes)
      ∧ ∀ other, other ≠ bytes → other <+: bytes ∨ bytes <+: other →
        ∀ value', decode typeName t.val other ≠ .ok value' := by
  obtain ⟨hcounts, hwire⟩ := decode_eq_ok h
  have hsize : maxSize t.val value = bytes.length := by rw [maxSize_eq, hwire]
  refine ⟨hsize, ?_, ?_, ?_⟩
  · intro buffer hroom
    rw [encode_eq hcounts (hsize ▸ hroom), hsize, hwire]
  · intro other hother
    exact (decode_eq_ok hother).2.symm.trans hwire
  · intro other hne hprefix value' hother
    obtain ⟨hcounts', hwire'⟩ := decode_eq_ok hother
    rw [← hwire, ← hwire'] at hne hprefix
    rcases hprefix with ⟨rest, hrest⟩ | ⟨rest, hrest⟩
    · obtain ⟨rfl, -⟩ := wire_append_inj t.val value' value hcounts' hcounts rest [] (by rw [hrest, List.append_nil])
      exact hne rfl
    · obtain ⟨rfl, -⟩ := wire_append_inj t.val value value' hcounts hcounts' rest [] (by rw [hrest, List.append_nil])
      exact hne rfl

/-- A vector of two 16-bit integers, and a bool. -/
theorem a_vector_and_a_bool_have_one_encoding :
    decode [] (.nested [.vector (.scalar (.integral (.unsigned .two))), .scalar (.integral .bool)])
        [2, 0, 0, 0, 1, 0, 0, 2, 1] =
      .ok ([⟨1, by decide⟩, ⟨512, by decide⟩], true, ())
    ∧ (∀ other, other ≠ [2, 0, 0, 0, 1, 0, 0, 2, 1] →
        other <+: [2, 0, 0, 0, 1, 0, 0, 2, 1] ∨ [2, 0, 0, 0, 1, 0, 0, 2, 1] <+: other →
        ∀ value, decode [] (.nested [.vector (.scalar (.integral (.unsigned .two))), .scalar (.integral .bool)]) other ≠
          .ok value) := by
  have hdecode : decode [] (.nested [.vector (.scalar (.integral (.unsigned .two))), .scalar (.integral .bool)])
      [2, 0, 0, 0, 1, 0, 0, 2, 1] = .ok ([⟨1, by decide⟩, ⟨512, by decide⟩], true, ()) := rfl
  exact ⟨hdecode, (portable_encoding_is_canonical
    ⟨.nested [.vector (.scalar (.integral (.unsigned .two))), .scalar (.integral .bool)], rfl⟩ _ _ _ hdecode).2.2.2⟩

end PuppetMaster.Portable
