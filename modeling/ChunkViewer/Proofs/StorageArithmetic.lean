import ChunkViewer.Proofs.StoreInvariant
import ChunkViewer.Proofs.Unpacking

/-!
# Undefined arithmetic in the storage loop

The header byte of a storage is not checked beyond its runtime bit. The arithmetic of the
loop is defined exactly when every header that the loop gets to has a width of 1 to 32 or -1
to -32 bits, and storage 0, whose words are decoded, at most 30 and not the least number as
its palette size.
-/

namespace ChunkViewer

open ExceptRun

/-! ## Stops that are not storage arithmetic -/

lemma subscript_errors {P : Stop → Prop} {what : Undefined} (h : P (.undefined what)) (size : ℕ)
    (n : ℤ) : ErrorsIn P (subscript what size n) := by
  unfold subscript
  by_cases hn : 0 ≤ n ∧ n < size
  · rw [dif_pos hn]
    exact ErrorsIn.ok _ _
  · rw [dif_neg hn]
    exact ErrorsIn.error h

/-- No undefined storage arithmetic. -/
abbrev Sound {α : Type} (x : Exec α) : Prop := ErrorsIn (fun e => ¬e.isStorage) x

lemma Sound.of_read {α : Type} {x : Exec α} (h : ErrorsIn Stop.isRead x) : Sound x :=
  h.mono fun _ he => he.not_isStorage

lemma addBlockState_sound (c : Chunk) (y : ℤ) (tag : NBTTag) : Sound (c.addBlockState y tag) := by
  unfold Chunk.addBlockState
  exact ErrorsIn.bind (subscript_errors id _ _) fun j => ErrorsIn.ok _ _

lemma addBlock_sound (c : Chunk) (state rawX y rawZ : ℤ) : Sound (c.addBlock state rawX y rawZ) := by
  unfold Chunk.addBlock
  refine ErrorsIn.bind (subscript_errors id _ _) fun i => ?_
  refine ErrorsIn.bind (subscript_errors id _ _) fun k => ?_
  exact ErrorsIn.bind (subscript_errors id _ _) fun j => ErrorsIn.ok _ _

lemma paletteLoop_sound (fuel : ℕ) (v : Slice) (chunkY : ℤ) (p off : ℕ) (c : Chunk) :
    Sound (paletteLoop fuel v chunkY p off c) := by
  induction p generalizing off c with
  | zero => exact ErrorsIn.ok _ _
  | succ p ih =>
    rw [paletteLoop]
    refine ErrorsIn.bind (Sound.of_read (parseNBTTag_errors _ _ _ _ _)) fun r => ?_
    exact ErrorsIn.bind (addBlockState_sound _ _ _) fun c' => ih _ _

lemma wordLoop_sound_pos {i : ℕ} (hi : i ≠ 0) (v : Slice) (b k n chunkY : ℤ) (w off pos : ℕ)
    (c : Chunk) : Sound (wordLoop v i b k n chunkY w off pos c) := by
  induction w generalizing off pos c with
  | zero => exact ErrorsIn.ok _ _
  | succ w ih =>
    rw [wordLoop]
    refine ErrorsIn.bind (Sound.of_read (parseLittleEndian_errors _ _ _ _ _)) fun word => ?_
    rw [blockLoop_pos hi, ok_bind]
    exact ih _ _ _

lemma blockLoop_sound {b k n : ℤ} (hstate : ∀ word pos, ∃ s, blockState word pos b k n = .ok s)
    (i : ℕ) (chunkY : ℤ) (word : BitVec 32) (block pos : ℕ) (c : Chunk) :
    Sound (blockLoop i b k n chunkY word block pos c) := by
  induction block generalizing pos c with
  | zero => exact ErrorsIn.ok _ _
  | succ block ih =>
    rw [blockLoop]
    refine ErrorsIn.bind ?_ fun c' => ih _ _
    unfold placeBlock
    apply ErrorsIn.ite
    · obtain ⟨s, hs⟩ := hstate word pos
      rw [hs, ok_bind]
      exact addBlock_sound _ _ _ _ _
    · exact ErrorsIn.ok _ _

lemma wordLoop_sound {b k n : ℤ} (hstate : ∀ word pos, ∃ s, blockState word pos b k n = .ok s)
    (v : Slice) (i : ℕ) (chunkY : ℤ) (w off pos : ℕ) (c : Chunk) :
    Sound (wordLoop v i b k n chunkY w off pos c) := by
  induction w generalizing off pos c with
  | zero => exact ErrorsIn.ok _ _
  | succ w ih =>
    rw [wordLoop]
    refine ErrorsIn.bind (Sound.of_read (parseLittleEndian_errors _ _ _ _ _)) fun word => ?_
    exact ErrorsIn.bind (blockLoop_sound hstate _ _ _ _ _ _) fun r => ih _ _ _

/-! ## The headers the arithmetic is defined for -/

/-- The header at `off`, unless it has the runtime bit, has a width of 1 to 32 or -1 to -32
bits. -/
def WidthDefined (v : Slice) (off : ℕ) : Prop :=
  ∀ sv, v.charAt off = .ok sv → sv &&& 1 ≠ 1 →
    toChar sv >>> 1 ≠ 0 ∧ -32 ≤ toChar sv >>> 1 ∧ toChar sv >>> 1 ≤ 32

/-- If storage 0 has words and its palette is read, then its width is at most 30 and its
palette size not the least number. -/
def IndicesDefined (fuel : ℕ) (v : Slice) (chunkY : ℤ) (c : Chunk) : Prop :=
  ∀ sv l n r, v.charAt (2 : ℕ) = .ok sv → sv &&& 1 ≠ 1 → storageLayout (toChar sv) = .ok l →
    0 < l.numWords → parseInt32 v (3 + 4 * l.numWords.toNat) = .ok n →
    paletteLoop fuel v chunkY n.toInt.toNat (7 + 4 * l.numWords.toNat) c = .ok r →
    l.bitsPerBlock ≤ 30 ∧ n.toInt ≠ -2147483648

lemma blockState_undefined {b k n : ℤ} (hb : 1 ≤ b) (hb32 : b ≤ 32) (hk : 1 ≤ k)
    (hfits : k * b ≤ 32) (h : ¬(b ≤ 30 ∧ n ≠ -2147483648)) (word : BitVec 32) (pos : ℕ) :
    ∃ err, blockState word pos b k n = .error err ∧ err.isStorage := by
  unfold blockState
  rw [shiftWord_ok hb hk hfits, ok_bind]
  by_cases hb30 : b ≤ 30
  · have hmin : n = -2147483648 := by
      by_contra hne
      exact h ⟨hb30, hne⟩
    rw [indexMask_ok hb hb30, ok_bind, hmin]
    exact ⟨_, rfl, trivial⟩
  · rw [indexMask_error (by omega), error_bind]
    exact ⟨_, rfl, trivial⟩

lemma parseInt32_of_parseInt32 {v : Slice} (off : ℕ) {off' : ℕ} {n : BitVec 32}
    (h : parseInt32 v off' = .ok n) (hlt : off' < 2147483648) (hle : off ≤ off') :
    ∃ m, parseInt32 v off = .ok m := by
  have := parseInt32_bytes h hlt
  by_cases hmax : off + 4 ≤ 2147483648
  · exact ⟨_, parseInt32_eq (by omega) hmax⟩
  · unfold parseInt32 at h
    have hbytes := parseLittleEndian_bytes h (by norm_num)
    rw [toInt32_of_lt hlt] at hbytes
    omega

section

variable {fuel : ℕ} {v : Slice} {chunkY : ℤ} {c : Chunk} {sv : UInt8} {l : StorageLayout}

lemma loadStorage_sound_pos {i off : ℕ} (hi : i ≠ 0) (hsv : v.charAt off = .ok sv)
    (hrt : sv &&& 1 ≠ 1) (hl : storageLayout (toChar sv) = .ok l) (h1 : -4096 ≤ l.numWords)
    (h2 : l.numWords ≤ 4096) : Sound (loadStorage fuel v chunkY i off c) := by
  unfold loadStorage
  rw [hsv, ok_bind, if_neg hrt, hl, ok_bind, asInt_ok (by omega) (by omega), ok_bind]
  refine ErrorsIn.bind (Sound.of_read (parseLittleEndian_errors _ _ _ _ _)) fun n => ?_
  refine ErrorsIn.bind (paletteLoop_sound _ _ _ _ _ _) fun r => ?_
  exact ErrorsIn.bind (wordLoop_sound_pos hi _ _ _ _ _ _ _ _ _) fun c' => ErrorsIn.ok _ _

lemma loadStorage_sound_first (hsv : v.charAt (2 : ℕ) = .ok sv) (hrt : sv &&& 1 ≠ 1)
    (hl : storageLayout (toChar sv) = .ok l) (hf : l.Forward) :
    Sound (loadStorage fuel v chunkY 0 2 c) ↔ IndicesDefined fuel v chunkY c := by
  have hwords := hf.words_ge
  have hwords' := hf.words_le
  rw [loadStorage_first hsv hrt hl hf]
  constructor
  · intro hsound sv' l' n r hsv' _ hl' _ hn hr
    rw [hsv] at hsv'
    obtain rfl := Except.ok.inj hsv'
    rw [hl] at hl'
    obtain rfl := Except.ok.inj hl'
    by_contra hnot
    obtain ⟨word, hword⟩ := parseInt32_of_parseInt32 3 hn (by omega) (by omega)
    obtain ⟨err, herr, hstorage⟩ := blockState_undefined hf.bits_pos hf.bits_le hf.blocks_pos hf.fits
      hnot word 0
    have hN : l.numWords.toNat = (l.numWords.toNat - 1) + 1 := by omega
    have hk : l.blocksPerWord.toNat = (l.blocksPerWord.toNat - 1) + 1 := by
      have := hf.blocks_pos
      omega
    refine hsound err ?_ hstorage
    rw [hn, ok_bind, hr, ok_bind, hN, wordLoop, hword, ok_bind, hk, blockLoop, placeBlock, if_pos rfl,
      herr]
    rfl
  · intro hdefined
    have hread : Sound (parseInt32 v (3 + 4 * l.numWords.toNat)) :=
      Sound.of_read (parseLittleEndian_errors _ _ _ _ _)
    cases hn : parseInt32 v (3 + 4 * l.numWords.toNat) with
    | error err =>
      rw [error_bind]
      exact ErrorsIn.error (hread err hn)
    | ok n =>
      rw [ok_bind]
      have hpalette := paletteLoop_sound fuel v chunkY n.toInt.toNat (7 + 4 * l.numWords.toNat) c
      cases hr : paletteLoop fuel v chunkY n.toInt.toNat (7 + 4 * l.numWords.toNat) c with
      | error err =>
        rw [error_bind]
        exact ErrorsIn.error (hpalette err hr)
      | ok r =>
        obtain ⟨hb30, hmin⟩ := hdefined sv l n r hsv hrt hl (by omega) hn hr
        have hlow := BitVec.le_two_mul_toInt (x := n)
        have hhigh := BitVec.two_mul_toInt_lt (x := n)
        rw [ok_bind]
        refine ErrorsIn.bind (wordLoop_sound ?_ _ _ _ _ _ _ _) fun c' => ErrorsIn.ok _ _
        intro word pos
        exact ⟨_, blockState_eq hf.bits_pos hb30 hf.blocks_pos hf.fits (by omega) (by omega) word pos⟩

end

/-- One storage: the arithmetic is defined if and only if the header allows it. -/
theorem loadStorage_sound_iff (fuel : ℕ) (v : Slice) (chunkY : ℤ) {i off : ℕ} (c : Chunk)
    (hfirst : i = 0 → off = 2) :
    Sound (loadStorage fuel v chunkY i off c) ↔
      WidthDefined v off ∧ (i = 0 → IndicesDefined fuel v chunkY c) := by
  have hsame : ∀ {sv sv' : UInt8}, v.charAt off = .ok sv → v.charAt off = .ok sv' → sv' = sv := by
    intro sv sv' h h'
    rw [h] at h'
    exact (Except.ok.inj h').symm
  cases hsv : v.charAt off with
  | error err =>
    refine iff_of_true ?_ ⟨?_, ?_⟩
    · unfold loadStorage
      rw [hsv, error_bind]
      exact ErrorsIn.error (Stop.isRead.not_isStorage (charAt_errors v off err hsv))
    · intro sv h
      rw [hsv] at h
      exact absurd h (by simp)
    · intro hi sv l n r h
      rw [← hfirst hi, hsv] at h
      exact absurd h (by simp)
  | ok sv =>
    by_cases hrt : sv &&& 1 = 1
    · refine iff_of_true ?_ ⟨?_, ?_⟩
      · unfold loadStorage
        rw [hsv, ok_bind, if_pos hrt]
        exact ErrorsIn.ok _ _
      · intro sv' h hrt'
        exact absurd (hsame hsv h ▸ hrt) hrt'
      · intro hi sv' l n r h hrt'
        rw [← hfirst hi] at h
        exact absurd (hsame hsv h ▸ hrt) hrt'
    have hwidth : WidthDefined v off ↔
        toChar sv >>> 1 ≠ 0 ∧ -32 ≤ toChar sv >>> 1 ∧ toChar sv >>> 1 ≤ 32 :=
      ⟨fun h => h sv hsv hrt, fun h sv' hsv' _ => hsame hsv hsv' ▸ h⟩
    have hunsound : ∀ err, storageLayout (toChar sv) = .error err → err.isStorage →
        ¬Sound (loadStorage fuel v chunkY i off c) := by
      intro err hl herr hsound
      refine hsound err ?_ herr
      unfold loadStorage
      rw [hsv, ok_bind, if_neg hrt, hl, error_bind]
    rw [hwidth]
    rcases storageLayout_cases (toChar sv) with
      ⟨h0, hl⟩ | ⟨hlarge, hl⟩ | ⟨l, hl, hbits, hf⟩ | ⟨hneg, l, hl, h1, h2⟩
    · exact iff_of_false (hunsound _ hl trivial) (by omega)
    · exact iff_of_false (hunsound _ hl trivial) (by omega)
    · have hb1 := hf.bits_pos
      have hb2 := hf.bits_le
      have hw1 := hf.words_ge
      have hw2 := hf.words_le
      rw [hbits] at hb1 hb2
      by_cases hi : i = 0
      · obtain rfl := hfirst hi
        subst hi
        rw [loadStorage_sound_first hsv hrt hl hf]
        exact ⟨fun h => ⟨by omega, fun _ => h⟩, fun h => h.2 rfl⟩
      · exact iff_of_true (loadStorage_sound_pos hi hsv hrt hl (by omega) (by omega))
          ⟨by omega, fun h => absurd h hi⟩
    · by_cases hi : i = 0
      · obtain rfl := hfirst hi
        subst hi
        refine iff_of_true ?_ ⟨by omega, fun _ sv' l' n r hsv' _ hl' hpos => ?_⟩
        · rw [loadStorage_first_backward hsv hrt hl h1 h2]
          exact ErrorsIn.error id
        · rw [hsame hsv hsv', hl] at hl'
          obtain rfl := Except.ok.inj hl'
          omega
      · exact iff_of_true (loadStorage_sound_pos hi hsv hrt hl (by omega) (by omega))
          ⟨by omega, fun h => absurd h hi⟩

/-! ## The storage loop -/

/-- From storage `i` at `off` the loop gets to storage `j` at `off'`. -/
inductive Reaches (fuel : ℕ) (v : Slice) (chunkY : ℤ) : ℕ → ℕ → Chunk → ℕ → ℕ → Chunk → Prop
  | here (i off : ℕ) (c : Chunk) : Reaches fuel v chunkY i off c i off c
  | next {i off off₁ j off' : ℕ} {c c₁ c' : Chunk} :
    loadStorage fuel v chunkY i off c = .ok (some (off₁, c₁)) →
    Reaches fuel v chunkY (i + 1) off₁ c₁ j off' c' → Reaches fuel v chunkY i off c j off' c'

lemma Reaches.le {fuel : ℕ} {v : Slice} {chunkY : ℤ} {i off j off' : ℕ} {c c' : Chunk}
    (h : Reaches fuel v chunkY i off c j off' c') : i ≤ j := by
  induction h with
  | here i off c => exact le_rfl
  | next _ _ ih => omega

lemma Reaches.first {fuel : ℕ} {v : Slice} {chunkY : ℤ} {off off' : ℕ} {c c' : Chunk}
    (h : Reaches fuel v chunkY 0 off c 0 off' c') : off' = off ∧ c' = c := by
  cases h with
  | here i off c => exact ⟨rfl, rfl⟩
  | next _ hrest => exact absurd hrest.le (by omega)

lemma Reaches.storageLoop_eq {fuel : ℕ} {v : Slice} {chunkY : ℤ} {i off j off' : ℕ} {c c' : Chunk}
    (h : Reaches fuel v chunkY i off c j off' c') {n : ℕ} (hn : j = i + n) :
    storageLoop fuel v chunkY n i off c = .ok (true, c') := by
  induction h generalizing n with
  | here i off c =>
    obtain rfl : n = 0 := by omega
    rfl
  | next hload hrest ih =>
    have hle := hrest.le
    cases n with
    | zero => exact absurd hle (by omega)
    | succ n =>
      rw [storageLoop, hload, ok_bind]
      exact ih (by omega)

lemma storageLoop_sound_iff (fuel : ℕ) (v : Slice) (chunkY : ℤ) (n i off : ℕ) (c : Chunk) :
    Sound (storageLoop fuel v chunkY n i off c) ↔
      ∀ j off' c', Reaches fuel v chunkY i off c j off' c' → j < i + n →
        Sound (loadStorage fuel v chunkY j off' c') := by
  induction n generalizing i off c with
  | zero => exact iff_of_true (ErrorsIn.ok _ _) fun j _ _ h hj => absurd h.le (by omega)
  | succ n ih =>
    rw [storageLoop]
    constructor
    · intro hsound j off' c' hreach hj
      cases hreach with
      | here => exact fun e he => hsound e (by rw [he, error_bind])
      | next hload hrest =>
        rw [hload, ok_bind] at hsound
        exact (ih _ _ _).mp hsound j off' c' hrest (by omega)
    · intro hall e he
      rcases bind_eq_error.mp he with hload | ⟨r, hload, hrest⟩
      · exact hall i off c (Reaches.here i off c) (by omega) e hload
      · cases r with
        | none => exact absurd hrest (by simp)
        | some r =>
          refine (ih _ _ _).mpr ?_ e hrest
          intro j off' c' hreach hj
          exact hall j off' c' (Reaches.next hload hreach) (by omega)

lemma loadEntry_errorsIn_iff {P : Stop → Prop} (hread : ∀ e, e.isRead → P e) {fuel : ℕ} {e : Entry}
    {st : LoaderState} {slot : Slot} {c : Chunk} (hslot : e.slot? = some slot)
    (hc : (st.visit slot).2.deref (st.visit slot).1 = .ok c) :
    ErrorsIn P (loadEntry fuel e st) ↔ ∀ count, e.value.charAt 1 = .ok count →
      ErrorsIn P (storageLoop fuel e.value slot.chunkY (toChar count).toNat 0 2 c) := by
  rw [loadEntry_of_slot hslot, hc, ok_bind]
  cases hcount : e.value.charAt 1 with
  | error err =>
    refine iff_of_true ?_ fun count h => absurd h (by simp)
    rw [error_bind]
    exact ErrorsIn.error (hread err (charAt_errors e.value 1 err hcount))
  | ok count =>
    rw [ok_bind]
    refine (ErrorsIn.bind_ok_iff _).trans ⟨?_, fun h => h count rfl⟩
    intro h count' hcount'
    exact Except.ok.inj hcount' ▸ h

/-- The storage arithmetic of an entry is defined if and only if the headers it gets to
allow it. -/
theorem storage_arithmetic_defined {fuel fuel' : ℕ} {seen : List Entry} {st : LoaderState}
    (hrun : Loads fuel' seen true st) {e : Entry} {slot : Slot} (hslot : e.slot? = some slot) :
    (∀ err, loadEntry fuel e st = .error err → ¬err.isStorage) ↔
      ∀ c count, (st.visit slot).2.deref (st.visit slot).1 = .ok c → e.value.charAt 1 = .ok count →
        0 < toChar count →
        (∀ i off c', Reaches fuel e.value slot.chunkY 0 2 c i off c' → i < (toChar count).toNat →
          WidthDefined e.value off) ∧ IndicesDefined fuel e.value slot.chunkY c := by
  obtain ⟨c, hc⟩ := hrun.storeInv.deref_visit slot
  refine (loadEntry_errorsIn_iff (fun _ => Stop.isRead.not_isStorage) hslot hc).trans ?_
  simp only [storageLoop_sound_iff, Nat.zero_add]
  constructor
  · intro hall c' count hc' hcount hpos
    obtain rfl := Except.ok.inj (hc.symm.trans hc')
    have hstep : ∀ i off c', Reaches fuel e.value slot.chunkY 0 2 c i off c' →
        i < (toChar count).toNat →
        WidthDefined e.value off ∧ (i = 0 → IndicesDefined fuel e.value slot.chunkY c') := by
      intro i off c' hreach hi
      refine (loadStorage_sound_iff _ _ _ _ ?_).mp (hall count hcount i off c' hreach hi)
      rintro rfl
      exact hreach.first.1
    refine ⟨fun i off c' hreach hi => (hstep i off c' hreach hi).1, ?_⟩
    exact (hstep 0 2 c (Reaches.here 0 2 c) (by omega)).2 rfl
  · intro hall count hcount i off c' hreach hi
    obtain ⟨hwidth, hindices⟩ := hall c count hc hcount (by omega)
    refine (loadStorage_sound_iff _ _ _ _ ?_).mpr ⟨hwidth i off c' hreach hi, ?_⟩
    · rintro rfl
      exact hreach.first.1
    · rintro rfl
      rw [hreach.first.2]
      exact hindices

/-- A whole value with one-bit indices and one palette entry. -/
theorem storage_arithmetic_defined_packedEntry :
    (packedEntry 1 (List.replicate 128 0) 1 [0, 0, 0]).slot? = some ⟨.OVERWORLD, -1, 2, 3⟩ ∧
      ∀ err, loadEntry 2 (packedEntry 1 (List.replicate 128 0) 1 [0, 0, 0]) LoaderState.init =
        .error err → ¬err.isStorage := by
  have hrun : Loads 2 [] true LoaderState.init := Loads.start
  have hslot := packedEntry_slot? 1 (List.replicate 128 0) 1 [0, 0, 0]
  refine ⟨hslot, (storage_arithmetic_defined hrun hslot).mpr ?_⟩
  intro c count _ hcount _
  obtain rfl : count = 1 := (Except.ok.inj hcount).symm
  constructor
  · intro i off c' hreach hi
    obtain rfl : i = 0 := by
      rw [show (toChar 1).toNat = 1 from rfl] at hi
      omega
    obtain ⟨rfl, -⟩ := hreach.first
    intro sv hsv _
    obtain rfl : sv = 2 := (Except.ok.inj hsv).symm
    decide
  · intro sv l n r hsv _ hl _ hn _
    obtain rfl : sv = 2 := (Except.ok.inj hsv).symm
    obtain rfl := Except.ok.inj ((show storageLayout (toChar 2) = .ok ⟨1, 32, 128⟩ by
      decide +kernel).symm.trans hl)
    have hsize := @parseInt32_paletteSize 1 1 (List.replicate 128 0) 1 [0, 0, 0]
      (by rw [List.length_replicate]; norm_num)
    rw [List.length_replicate] at hsize
    obtain rfl := Except.ok.inj (hsize.symm.trans hn)
    exact ⟨by norm_num, by decide⟩

/-- An Overworld entry at `(-1, 2)` for sub-chunk 3 whose storage has a width of 0 bits. -/
def zeroWidthEntry : Entry := ⟨[255, 255, 255, 255, 2, 0, 0, 0, 0x2F, 3], [8, 1, 0]⟩

/-- The loader divides by the width. -/
theorem zero_width_divides_by_zero :
    zeroWidthEntry.slot? = some ⟨.OVERWORLD, -1, 2, 3⟩ ∧
      (∀ fuel, loadEntry fuel zeroWidthEntry LoaderState.init =
        .error (.undefined .blocksPerWord)) ∧
      Stop.isStorage (.undefined .blocksPerWord) :=
  ⟨slot?_eq_some.mpr ⟨rfl, rfl, rfl⟩, fun _ => rfl, trivial⟩

end ChunkViewer
