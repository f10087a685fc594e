import DmaLink.Proofs.Engine.Geometry

namespace DmaLink

namespace Split

variable {s : Split} {base : UInt32} {size : Nat}

/-- A size that is refused is refused by a configuration error. -/
theorem exists_fit_eq_error {halfWords : Nat}
    (hrefused : ¬ (0 < halfWords ∧ 2 * halfWords ≤ s.windowWords ∧
      s.base.toNat + 2 * halfWords * wordBytes ≤ Layout.addressLimit)) :
    ∃ cause, s.fit halfWords = .error (.configuration cause) := by
  cases hfit : s.fit halfWords with
  | ok s' =>
    obtain ⟨hpositive, hwindow, hend, -⟩ := fit_eq_ok_iff.1 hfit
    exact absurd ⟨hpositive, hwindow, hend⟩ hrefused
  | error cause =>
    unfold fit at hfit
    split at hfit
    case isTrue => exact ⟨_, congrArg Except.error (Except.error.inj hfit).symm⟩
    split at hfit
    case isTrue => exact ⟨_, congrArg Except.error (Except.error.inj hfit).symm⟩
    split at hfit
    case isTrue => exact ⟨_, congrArg Except.error (Except.error.inj hfit).symm⟩
    case isFalse => exact nomatch hfit

/-- The end of halves that lie in a window of at most `2 ^ 60` words fits in 64 bits. -/
theorem resize_eq_fit (hwindow : s.windowWords ≤ 2 ^ 60) (halfWords : Nat) :
    s.resize halfWords = (s.fit halfWords).mapError Fault.error := by
  unfold resize
  split
  case isTrue hinside =>
    have hbase := s.base.toNat_lt
    have hbytes : Size.mul (Size.doubled halfWords) wordBytes =
        .ok (Size.doubled halfWords * wordBytes) := by
      refine Size.mul_eq_ok_iff.2 ⟨?_, rfl⟩
      simp only [Size.limit, wordBytes]
      omega
    have hend : s.endAddress halfWords =
        .ok (s.base.toNat + Size.doubled halfWords * wordBytes) := by
      rw [endAddress, hbytes]
      refine Size.add_eq_ok_iff.2 ⟨?_, rfl⟩
      simp only [Size.limit, wordBytes]
      omega
    rw [hend]
    rfl
  case isFalse => rfl

end Split

namespace Window

variable {w : Window} {start len : Nat}

/-- Words put into a window stand in their range, and all others stay. -/
theorem get_put {words : List UInt64} (hinside : start + words.length ≤ w.size) (i : Nat) :
    get ⟨Memory.put w.words start words⟩ i =
      if start ≤ i ∧ i < start + words.length then words.getD (i - start) 0 else w.get i := by
  have hsize : w.size = w.words.size := rfl
  simp only [get, Array.getD_eq_getD_getElem?, Memory.getElem?_put, List.getD_eq_getElem?_getD]
  by_cases hi : start ≤ i ∧ i < start + words.length
  · rw [if_pos hi, if_pos (by omega)]
  · rw [if_neg hi, if_neg fun h => hi ⟨h.1, h.2.1⟩]

theorem toList_of_load {words : Vector UInt64 len} (hload : w.load start len = .ok words) :
    words.toList = (List.range len).map fun i => w.get (start + i) := by
  unfold load at hload
  split at hload
  case isTrue hinside =>
    cases hload
    have hsize : w.size = w.words.size := rfl
    apply List.ext_getElem
    · rw [Vector.length_toList, List.length_map, List.length_range]
    · intro i hi _
      rw [Vector.length_toList] at hi
      simp [get, Array.getElem?_eq_getElem (show start + i < w.words.size by omega)]
  case isFalse => exact nomatch hload

theorem exists_load (hinside : start + len ≤ w.size) :
    ∃ words : Vector UInt64 len, w.load start len = .ok words :=
  ⟨_, dif_pos hinside⟩

end Window

namespace Split

variable {s : Split} {w : Window} {half : Half}

/-- Words that fit a half with their tag are put at its start. -/
theorem run_stage_of_le {words : List UInt64} {tag : Option UInt64}
    (hshort : (words ++ tag.toList).length ≤ s.halfWords)
    (hinside : s.offset half + (words ++ tag.toList).length ≤ w.size) :
    (s.stage half words tag).run Window.answer w = (.ok (words ++ tag.toList).length,
      ⟨Memory.put w.words (s.offset half) (words ++ tag.toList)⟩) := by
  rw [List.length_append] at hshort hinside
  have hcheck : checkBounds 0 (words.length + tag.toList.length) s.halfWords = .ok () :=
    if_pos (by omega)
  have hwords : (Proc.perform (I := Window.io) (.store (s.offset half) words)).run
      Window.answer w = (.ok (), ⟨Memory.put w.words (s.offset half) words⟩) :=
    Window.store_eq_ok_iff.2 ⟨by omega, rfl⟩
  unfold stage
  simp only [hcheck]
  refine (Proc.run_bind (I := Window.io) _ _ _ _).trans ?_
  rw [hwords]
  cases tag with
  | none => rw [Option.toList_none, List.append_nil]; rfl
  | some word =>
    have htag : (Proc.perform (I := Window.io)
          (.store (s.offset half + words.length) [word])).run Window.answer
          ⟨Memory.put w.words (s.offset half) words⟩ =
        (.ok (), ⟨Memory.put w.words (s.offset half) (words ++ [word])⟩) := by
      rw [Memory.put_append]
      refine Window.store_eq_ok_iff.2 ⟨?_, rfl⟩
      rw [Window.size, Memory.size_put]
      exact hinside
    refine (Proc.run_bind (I := Window.io) _ _ _ _).trans ?_
    rw [htag, Option.toList_some, List.length_append]
    rfl

/-- Words that do not fit a half with their tag are refused before any is written. -/
theorem run_stage_of_lt {words : List UInt64} {tag : Option UInt64}
    (hlong : s.halfWords < (words ++ tag.toList).length) :
    (s.stage half words tag).run Window.answer w =
      (.error (.outOfBounds 0 (words ++ tag.toList).length s.halfWords), w) := by
  rw [List.length_append] at hlong ⊢
  have hcheck : checkBounds 0 (words.length + tag.toList.length) s.halfWords =
      .error (.outOfBounds 0 (words.length + tag.toList.length) s.halfWords) :=
    if_neg (by omega)
  unfold stage
  simp only [hcheck]
  rfl

/-- Draining appends the words of the half. Where the window refuses to load them, the list is as it
    was. -/
theorem run_drainInto (s : Split) (w : Window) (half : Half) (out : List UInt64) :
    (s.drainInto half out).run Window.answer w =
      if s.offset half + s.halfWords ≤ w.size then
        ((.ok (), out ++ (List.range s.halfWords).map fun i => w.get (s.offset half + i)), w)
      else ((.error (.outOfBounds (s.offset half) s.halfWords w.size), out), w) := by
  have hdrain : (s.drain half).run Window.answer w = (w.load (s.offset half) s.halfWords, w) := rfl
  refine (Proc.run_bind (I := Window.io) Window.answer (s.drain half) _ w).trans ?_
  rw [hdrain]
  by_cases hinside : s.offset half + s.halfWords ≤ w.size
  · obtain ⟨words, hload⟩ := Window.exists_load hinside
    rw [if_pos hinside, ← Window.toList_of_load hload, hload]
    rfl
  · have hload : w.load (s.offset half) s.halfWords =
        .error (.outOfBounds (s.offset half) s.halfWords w.size) := dif_neg hinside
    have hroom : (out ++ List.replicate s.halfWords 0).take out.length = out := List.take_left
    rw [if_neg hinside, hload]
    exact congrArg (fun kept => ((Except.error _, kept), w)) hroom

/-- The last word of a half is the one before its end. -/
theorem run_last (hinside : s.offset half + s.halfWords - 1 < w.size) :
    (s.last half).run Window.answer w =
      (.ok (w.get (s.offset half + s.halfWords - 1)), w) := by
  obtain ⟨words, hload⟩ : ∃ words : Vector UInt64 1,
      w.load (s.offset half + s.halfWords - 1) 1 = .ok words := Window.exists_load (by omega)
  have honly : Window.only words = w.get (s.offset half + s.halfWords - 1) := by
    have hfirst : words.toList[0]? = some (Window.only words) := by simp [Window.only]
    rw [Window.toList_of_load hload] at hfirst
    exact (Option.some.inj hfirst).symm
  have hlook : (Proc.perform (I := Window.io)
      (.load (s.offset half + s.halfWords - 1) 1)).run Window.answer w = (.ok words, w) :=
    congrArg (·, w) hload
  refine (Proc.run_bind (I := Window.io) Window.answer _ _ w).trans ?_
  rw [hlook, ← honly]
  rfl

end Split

namespace SplitWindow

/-- What can be done to a split window. -/
inductive Operation where
  | resize (halfWords : Nat)
  | stage (half : Half) (words : List UInt64) (tag : Option UInt64)
  | drainInto (half : Half) (out : List UInt64)
  | last (half : Half)

/-- The split window after an operation. -/
def perform (p : SplitWindow) : Operation → SplitWindow
  | .resize halfWords => (p.resize halfWords).2
  | .stage half words tag => (p.stage half words tag).2
  | .drainInto half out => (p.drainInto half out).2
  | .last half => (p.last half).2

/-- The split window after one operation after the other. -/
def performAll (p : SplitWindow) (operations : List Operation) : SplitWindow :=
  operations.foldl perform p

/-- The words of a half. -/
def contents (p : SplitWindow) (half : Half) : List UInt64 :=
  (List.range p.split.halfWords).map fun i => p.window.get (p.split.offset half + i)

/-- The halves lie in a window of `size` words at `base`, and the window is as long as it says. -/
structure Sound (p : SplitWindow) (base : UInt32) (size : Nat) : Prop where
  fits : p.split.Fits base size
  claimed : p.split.windowWords = size
  real : p.window.size = size

variable {p : SplitWindow} {half : Half} {base : UInt32} {size halfWords : Nat}

/-- A half length that fits the window and the address space is taken over. -/
theorem resize_of_fits (hsound : p.Sound base size) (hsize : size ≤ 2 ^ 60)
    (hpositive : 1 ≤ halfWords) (hwindow : 2 * halfWords ≤ size)
    (hend : base.toNat + 16 * halfWords ≤ 2 ^ 32) :
    p.resize halfWords = (.ok (), { p with split := { p.split with halfWords } }) := by
  have hfit : p.split.fit halfWords = .ok { p.split with halfWords } := by
    refine Split.fit_eq_ok_iff.2 ⟨hpositive, ?_, ?_, rfl⟩
    · rwa [hsound.claimed]
    · rw [hsound.fits.base_eq]
      simp only [wordBytes, Layout.addressLimit]
      omega
  have hresize : p.split.resize halfWords = .ok { p.split with halfWords } := by
    rw [Split.resize_eq_fit (by rwa [hsound.claimed]), hfit]
    rfl
  simp only [resize, hresize]

/-- A half length that does not fit is refused and changes nothing. -/
theorem exists_resize_eq_error (hsound : p.Sound base size) (hsize : size ≤ 2 ^ 60)
    (hrefused : ¬ (1 ≤ halfWords ∧ 2 * halfWords ≤ size ∧
      base.toNat + 16 * halfWords ≤ 2 ^ 32)) :
    ∃ cause, p.resize halfWords = (.error (.error (.configuration cause)), p) := by
  have hfit : ∃ cause, p.split.fit halfWords = .error (.configuration cause) := by
    refine Split.exists_fit_eq_error fun ⟨hpositive, hwindow, hend⟩ => hrefused ⟨hpositive, ?_, ?_⟩
    · rwa [hsound.claimed] at hwindow
    · rw [hsound.fits.base_eq] at hend
      simp only [wordBytes, Layout.addressLimit] at hend
      omega
  obtain ⟨cause, hfit⟩ := hfit
  have hresize : p.split.resize halfWords = .error (.error (.configuration cause)) := by
    rw [Split.resize_eq_fit (by rwa [hsound.claimed]), hfit]
    rfl
  exact ⟨cause, by simp only [resize, hresize]⟩

theorem stage_eq (p : SplitWindow) (half : Half) (words : List UInt64) (tag : Option UInt64) :
    p.stage half words tag = (((p.split.stage half words tag).run Window.answer p.window).1,
      ⟨p.split, ((p.split.stage half words tag).run Window.answer p.window).2⟩) := rfl

/-- Draining a half appends its contents, or names the range that is out of bounds and appends
    nothing. -/
theorem drainInto_eq (p : SplitWindow) (half : Half) (out : List UInt64) :
    p.drainInto half out =
      if p.split.offset half + p.split.halfWords ≤ p.window.size then
        ((.ok (), out ++ p.contents half), p)
      else
        ((.error (.outOfBounds (p.split.offset half) p.split.halfWords p.window.size), out),
          p) := by
  have hrun := Split.run_drainInto p.split p.window half out
  have hdrain : p.drainInto half out =
      (((p.split.drainInto half out).run Window.answer p.window).1,
        ⟨p.split, ((p.split.drainInto half out).run Window.answer p.window).2⟩) := rfl
  rw [hdrain, hrun]
  split <;> rfl

/-- A drain that fails leaves everything as it was. -/
theorem eq_of_drainInto_eq_error {out : List UInt64} {cause : LinkError}
    (hfails : (p.drainInto half out).1.1 = .error cause) :
    p.drainInto half out = ((.error cause, out), p) := by
  rw [drainInto_eq] at hfails ⊢
  split at hfails
  case isTrue => exact nomatch hfails
  case isFalse hpast => rw [if_neg hpast, Except.error.inj hfails]

/-- The last word of a half inside the window can always be read. -/
theorem last_eq (hpositive : 1 ≤ p.split.halfWords)
    (hinside : p.split.offset half + p.split.halfWords ≤ p.window.size) :
    p.last half = (.ok (p.window.get (p.split.offset half + p.split.halfWords - 1)), p) := by
  have hlast : p.last half = (((p.split.last half).run Window.answer p.window).1,
      ⟨p.split, ((p.split.last half).run Window.answer p.window).2⟩) := rfl
  rw [hlast, Split.run_last (by omega)]

/-- The last word of a half ends its contents. -/
theorem getLast?_contents (hpositive : 1 ≤ p.split.halfWords) (half : Half) :
    (p.contents half).getLast? =
      some (p.window.get (p.split.offset half + p.split.halfWords - 1)) := by
  obtain ⟨count, hcount⟩ := Nat.exists_eq_add_of_le' hpositive
  rw [contents, hcount, List.range_succ, List.map_append, List.map_singleton,
    List.getLast?_concat, ← Nat.add_assoc, Nat.add_sub_cancel]

/-- Whatever is done, the halves stay in the window. -/
theorem Sound.perform (hsound : p.Sound base size) (hsize : size ≤ 2 ^ 60)
    (operation : Operation) : (p.perform operation).Sound base size := by
  cases operation with
  | resize halfWords =>
    by_cases hfits : 1 ≤ halfWords ∧ 2 * halfWords ≤ size ∧ base.toNat + 16 * halfWords ≤ 2 ^ 32
    · obtain ⟨hpositive, hwindow, hend⟩ := hfits
      rw [SplitWindow.perform, resize_of_fits hsound hsize hpositive hwindow hend]
      refine ⟨⟨hsound.fits.base_eq, hpositive, hwindow, ?_⟩, hsound.claimed, hsound.real⟩
      simp only [wordBytes, Layout.addressLimit]
      omega
    · obtain ⟨cause, hrefused⟩ := exists_resize_eq_error hsound hsize hfits
      rw [SplitWindow.perform, hrefused]
      exact hsound
  | stage half words tag =>
    have hoffset := hsound.fits.offset_le half
    have hreal := hsound.real
    by_cases hshort : (words ++ tag.toList).length ≤ p.split.halfWords
    · rw [SplitWindow.perform, stage_eq, Split.run_stage_of_le hshort (by omega)]
      exact ⟨hsound.fits, hsound.claimed, (Memory.size_put _ _ _).trans hreal⟩
    · rw [SplitWindow.perform, stage_eq, Split.run_stage_of_lt (Nat.lt_of_not_le hshort)]
      exact hsound
  | drainInto half out =>
    rw [SplitWindow.perform, drainInto_eq]
    split <;> exact hsound
  | last half =>
    have hoffset := hsound.fits.offset_le half
    have hreal := hsound.real
    rw [SplitWindow.perform, last_eq hsound.fits.positive (by omega)]
    exact hsound

/-- Every run of operations keeps the split as its creation made it. -/
theorem Sound.performAll (hsound : p.Sound base size) (hsize : size ≤ 2 ^ 60)
    (operations : List Operation) : (p.performAll operations).Sound base size := by
  induction operations generalizing p with
  | nil => exact hsound
  | cons operation rest ih => exact ih (hsound.perform hsize operation)

/-- A window that could be split is as its split says. -/
theorem sound_of_resize {w : Window} {s : Split} (hsize : w.size ≤ 2 ^ 60)
    (hsplit : (Split.whole w.size base).resize halfWords = .ok s) :
    Sound ⟨s, w⟩ base w.size := by
  rw [Split.resize_eq_fit hsize] at hsplit
  cases hfit : (Split.whole w.size base).fit halfWords with
  | error cause =>
    rw [hfit] at hsplit
    exact nomatch hsplit
  | ok s' =>
    rw [hfit] at hsplit
    cases hsplit
    obtain ⟨hpositive, hwindow, hend, rfl⟩ := Split.fit_eq_ok_iff.1 hfit
    exact ⟨⟨rfl, hpositive, hwindow, hend⟩, rfl, rfl⟩

/-- The halves of a split window are valid, disjoint and isolated, whatever has been done to it.
    They follow each other from the start of the window and end in it and below the end of 32-bit
    addressing. A size is taken exactly if that stays so, words are staged exactly if they fit the
    half with their tag, and then only the words at its start change; what is refused changes
    nothing. Draining appends the words of the half, and on a window that is shorter than it says it
    either does that or leaves the list as it was. -/
theorem halves_performAll {w : Window} {s : Split} (hsize : w.size ≤ 2 ^ 60)
    (hsplit : (Split.whole w.size base).resize halfWords = .ok s) (operations : List Operation) :
    let p := performAll ⟨s, w⟩ operations
    let count := p.split.halfWords
    p.window.size = w.size ∧
    (1 ≤ count ∧ 2 * count ≤ w.size ∧ base.toNat + 16 * count ≤ 2 ^ 32) ∧
    (p.split.offset .a = 0 ∧ p.split.address .a = base) ∧
    (p.split.offset .b = count ∧ (p.split.address .b).toNat = base.toNat + 8 * count) ∧
    (∀ more, 1 ≤ more → 2 * more ≤ w.size → base.toNat + 16 * more ≤ 2 ^ 32 →
      p.resize more = (.ok (), { p with split := { p.split with halfWords := more } })) ∧
    (∀ more, ¬ (1 ≤ more ∧ 2 * more ≤ w.size ∧ base.toNat + 16 * more ≤ 2 ^ 32) →
      ∃ cause, p.resize more = (.error (.error (.configuration cause)), p)) ∧
    (∀ half words tag, let staged := words ++ tag.toList
      (staged.length ≤ count → ∃ window, p.stage half words tag =
          (.ok staged.length, { p with window }) ∧ window.size = w.size ∧
        ∀ i, window.get i =
          if p.split.offset half ≤ i ∧ i < p.split.offset half + staged.length then
            staged.getD (i - p.split.offset half) 0
          else p.window.get i) ∧
      (count < staged.length →
        p.stage half words tag = (.error (.outOfBounds 0 staged.length count), p))) ∧
    (∀ half out, p.drainInto half out = ((.ok (), out ++ p.contents half), p)) ∧
    (∀ half, ∃ word, (p.contents half).getLast? = some word ∧ p.last half = (.ok word, p)) ∧
    ∀ (lying : SplitWindow) half out cause, (lying.drainInto half out).1.1 = .error cause →
      lying.drainInto half out = ((.error cause, out), lying) := by
  intro p count
  have hsound : p.Sound base w.size := (sound_of_resize hsize hsplit).performAll hsize operations
  have hinside (half : Half) : p.split.offset half + count ≤ p.window.size := by
    rw [hsound.real]
    exact hsound.fits.offset_le half
  have hend : base.toNat + 16 * count ≤ 2 ^ 32 := by
    have haddressing := hsound.fits.addressing
    simp only [wordBytes, Layout.addressLimit] at haddressing
    omega
  have hlower : p.split.address .a = base := by
    apply UInt32.toNat_inj.1
    rw [hsound.fits.toNat_address, Split.offset, Nat.zero_mul, Nat.add_zero]
  have hupper : (p.split.address .b).toNat = base.toNat + 8 * count := by
    rw [hsound.fits.toNat_address, Split.offset, wordBytes, Nat.mul_comm]
  refine ⟨hsound.real, ⟨hsound.fits.positive, hsound.fits.halves, hend⟩, ⟨rfl, hlower⟩,
    ⟨rfl, hupper⟩, fun more => resize_of_fits hsound hsize,
    fun more => exists_resize_eq_error hsound hsize, fun half words tag => ⟨?_, ?_⟩,
    fun half out => ?_, fun half => ?_, fun _ _ _ _ => eq_of_drainInto_eq_error⟩
  case refine_1 =>
    intro hshort
    have hhalf := hinside half
    have hput := Nat.le_trans (Nat.add_le_add_left hshort _) hhalf
    exact ⟨_, by rw [stage_eq, Split.run_stage_of_le hshort hput],
      (Memory.size_put _ _ _).trans hsound.real, Window.get_put hput⟩
  case refine_2 =>
    intro hlong
    rw [stage_eq, Split.run_stage_of_lt hlong]
  case refine_3 => rw [drainInto_eq, if_pos (hinside half)]
  case refine_4 =>
    exact ⟨_, getLast?_contents hsound.fits.positive half,
      last_eq hsound.fits.positive (hinside half)⟩

/-- A window of eight words is split in halves of two, whose upper one ends at the end of 32-bit
    addressing; the halves cannot grow, a burst of two words and a tag does not fit, and one of a
    word and a tag goes to the upper half alone. -/
theorem halves_performAll_atTheTop :
    let base : UInt32 := 0xffffffe0
    let operations : List Operation :=
      [.resize 4, .stage .a [1, 2] (some 3), .stage .b [4] (some 5)]
    let p := performAll ⟨⟨8, base, 2⟩, .zeroed 8⟩ operations
    (Split.whole 8 base).resize 2 = .ok ⟨8, base, 2⟩ ∧
      p.drainInto .b [9] = ((.ok (), [9] ++ p.contents .b), p) ∧ p.contents .b = [4, 5] ∧
      p.contents .a = [0, 0] ∧ p.split.halfWords = 2 := by
  have hsplit : (Split.whole 8 0xffffffe0).resize 2 = .ok ⟨8, 0xffffffe0, 2⟩ := by rfl
  obtain ⟨-, -, -, -, -, -, -, hdrain, -⟩ :=
    halves_performAll (w := .zeroed 8) (by decide) hsplit
      [.resize 4, .stage .a [1, 2] (some 3), .stage .b [4] (some 5)]
  exact ⟨hsplit, hdrain .b [9], by rfl, by rfl, by rfl⟩

end SplitWindow

end DmaLink
