import Mathlib

namespace EtranProcessing.Library.FrameLog

/-- What a reader in some state finds at the front of the bytes that are left. -/
inductive Piece (σ ε α : Type) where
  | item (a : α) (next : σ) (size : Nat)
  | short
  | invalid (e : ε)

inductive Ending (ε : Type) where
  | clean
  | torn
  | failed (e : ε)

/-- How far a walk over the frames of a log came. -/
structure Walk (σ ε α : Type) where
  items : List α
  state : σ
  used : Nat
  ending : Ending ε

variable {σ ε ε' α β : Type}

def Walk.cons (a : α) (size : Nat) (w : Walk σ ε α) : Walk σ ε α :=
  { w with items := a :: w.items, used := size + w.used }

def Walk.result (w : Walk σ ε α) : Except ε (Walk σ ε α) :=
  match w.ending with
  | .failed e => .error e
  | _ => .ok w

theorem Walk.result_eq_ok {w w' : Walk σ ε α} : w.result = .ok w' ↔ w = w' ∧ ∀ e, w.ending ≠ .failed e := by
  cases hending : w.ending with
  | failed e | clean | torn => simp [Walk.result, hending]

/-- Frame after frame, each read in the state that the one before leaves. The number
bounds the frames, so the length of the bytes is always enough. -/
def walk (piece : σ → List β → Piece σ ε α) : Nat → σ → List β → Walk σ ε α
  | _, s, [] => ⟨[], s, 0, .clean⟩
  | 0, s, _ :: _ => ⟨[], s, 0, .torn⟩
  | n + 1, s, b :: bs =>
    match piece s (b :: bs) with
    | .short => ⟨[], s, 0, .torn⟩
    | .invalid e => ⟨[], s, 0, .failed e⟩
    | .item a next size => (walk piece n next ((b :: bs).drop size)).cons a size

section Reading

variable {piece : σ → List β → Piece σ ε α}

@[simp] theorem walk_nil (n : Nat) (s : σ) : walk piece n s [] = ⟨[], s, 0, .clean⟩ := by
  cases n <;> rfl

theorem walk_short {n : Nat} {s : σ} {bs : List β} (hne : bs ≠ []) (h : piece s bs = .short) :
    walk piece n s bs = ⟨[], s, 0, .torn⟩ := by
  cases bs with
  | nil => exact absurd rfl hne
  | cons =>
      cases n with
      | zero => rfl
      | succ n => simp [walk, h]

theorem walk_item {n : Nat} {s next : σ} {bs : List β} {a : α} {size : Nat} (hne : bs ≠ [])
    (h : piece s bs = .item a next size) :
    walk piece (n + 1) s bs = (walk piece n next (bs.drop size)).cons a size := by
  cases bs with
  | nil => exact absurd rfl hne
  | cons => simp [walk, h]

structure Local (piece : σ → List β → Piece σ ε α) : Prop where
  pos : ∀ {s bs a next size}, piece s bs = .item a next size → 0 < size ∧ size ≤ bs.length
  front : ∀ {s bs a next size} (m : Nat), piece s bs = .item a next size → size ≤ m →
    piece s (bs.take m) = .item a next size

theorem walk_clean (hlocal : Local piece) (n : Nat) (s : σ) (bs : List β) (h : (walk piece n s bs).ending = .clean) :
    (walk piece n s bs).used = bs.length := by
  induction n generalizing s bs with
  | zero =>
      cases bs with
      | nil => rfl
      | cons => cases h
  | succ n ih =>
      cases bs with
      | nil => rfl
      | cons b bs =>
          cases hp : piece s (b :: bs) with
          | short => simp [walk, hp] at h
          | invalid e => simp [walk, hp] at h
          | item a next size =>
              have hsize := (hlocal.pos hp).2
              simp only [walk, hp, Walk.cons] at h ⊢
              have hrest := ih next ((b :: bs).drop size) h
              rw [List.length_drop] at hrest
              omega

theorem walk_torn (hlocal : Local piece) (n : Nat) (s : σ) (bs : List β) (h : (walk piece n s bs).ending = .torn) :
    (walk piece n s bs).used < bs.length := by
  induction n generalizing s bs with
  | zero =>
      cases bs with
      | nil => cases h
      | cons => simp [walk]
  | succ n ih =>
      cases bs with
      | nil => cases h
      | cons b bs =>
          cases hp : piece s (b :: bs) with
          | short => simp [walk, hp]
          | invalid e => simp [walk, hp] at h
          | item a next size =>
              have hsize := (hlocal.pos hp).2
              simp only [walk, hp, Walk.cons] at h ⊢
              have hrest := ih next ((b :: bs).drop size) h
              rw [List.length_drop] at hrest
              omega

theorem walk_fuel (hlocal : Local piece) (n m : Nat) (s : σ) (bs : List β) (hn : bs.length ≤ n) (hm : bs.length ≤ m) :
    walk piece n s bs = walk piece m s bs := by
  induction n generalizing m s bs with
  | zero =>
      obtain rfl : bs = [] := List.length_eq_zero_iff.mp (Nat.le_zero.mp hn)
      simp
  | succ n ih =>
      cases bs with
      | nil => simp
      | cons b bs =>
          cases m with
          | zero => simp at hm
          | succ m =>
              cases hp : piece s (b :: bs) with
              | short => simp [walk, hp]
              | invalid e => simp [walk, hp]
              | item a next size =>
                  have hsize := (hlocal.pos hp).1
                  have hdrop : ((b :: bs).drop size).length ≤ bs.length := by
                    rw [List.length_drop, List.length_cons]
                    omega
                  simp only [walk, hp]
                  rw [ih m next _ (by simp at hn; omega) (by simp at hm; omega)]

theorem walk_repaired (hlocal : Local piece) (n : Nat) (s : σ) (bs : List β)
    (h : ∀ e, (walk piece n s bs).ending ≠ .failed e) :
    walk piece n s (bs.take (walk piece n s bs).used) =
      { walk piece n s bs with ending := .clean } := by
  induction n generalizing s bs with
  | zero => cases bs <;> simp [walk]
  | succ n ih =>
      cases bs with
      | nil => simp
      | cons b bs =>
          cases hp : piece s (b :: bs) with
          | short => simp [walk, hp]
          | invalid e => exact absurd (by simp [walk, hp]) (h e)
          | item a next size =>
              have hwhole := walk_item (n := n) (List.cons_ne_nil b bs) hp
              rw [hwhole] at h ⊢
              have hrest := ih next ((b :: bs).drop size) h
              have hpos := (hlocal.pos hp).1
              have hfront := hlocal.front (size + (walk piece n next ((b :: bs).drop size)).used) hp (by omega)
              have hne : (b :: bs).take (size + (walk piece n next ((b :: bs).drop size)).used) ≠ [] := by
                simp only [ne_eq, List.take_eq_nil_iff, reduceCtorEq, or_false]
                omega
              simp only [Walk.cons] at hrest ⊢
              rw [walk_item hne hfront, List.drop_take, Nat.add_sub_cancel_left, hrest]
              rfl

end Reading

theorem walk_settled {piece : σ → List β → Piece σ ε α} (bound : Nat) (hshort : ∀ s bs, piece s bs ≠ .short)
    (hpos : ∀ s bs, bs.length ≤ bound → ∀ a next size, piece s bs = .item a next size → 0 < size)
    (n : Nat) (s : σ) (bs : List β) (hbound : bs.length ≤ bound) (hn : bs.length ≤ n) :
    (walk piece n s bs).ending ≠ .torn := by
  induction n generalizing s bs with
  | zero =>
      obtain rfl : bs = [] := List.length_eq_zero_iff.mp (Nat.le_zero.mp hn)
      simp
  | succ n ih =>
      cases bs with
      | nil => simp
      | cons b bs =>
          cases hp : piece s (b :: bs) with
          | short => exact absurd hp (hshort s (b :: bs))
          | invalid e => simp [walk, hp]
          | item a next size =>
              have hsize := hpos _ _ hbound _ _ _ hp
              have hdrop : ((b :: bs).drop size).length ≤ bs.length := by
                rw [List.length_drop, List.length_cons]
                omega
              simp only [walk, hp, Walk.cons]
              rw [List.length_cons] at hbound hn
              exact ih next _ (by omega) (by omega)

theorem walk_agree {piece : σ → List β → Piece σ ε α} {piece' : σ → List β → Piece σ ε' α} (bound : Nat)
    (hsame : ∀ s bs, bs.length ≤ bound → ∀ a next size,
      piece s bs = .item a next size → piece' s bs = .item a next size)
    (n : Nat) (s : σ) (bs : List β) (hbound : bs.length ≤ bound) (h : (walk piece n s bs).ending = .clean) :
    (walk piece' n s bs).ending = .clean ∧ (walk piece' n s bs).items = (walk piece n s bs).items ∧
      (walk piece' n s bs).state = (walk piece n s bs).state ∧
      (walk piece' n s bs).used = (walk piece n s bs).used := by
  induction n generalizing s bs with
  | zero =>
      cases bs with
      | nil => simp
      | cons => cases h
  | succ n ih =>
      cases bs with
      | nil => simp
      | cons b bs =>
          cases hp : piece s (b :: bs) with
          | short => simp [walk, hp] at h
          | invalid e => simp [walk, hp] at h
          | item a next size =>
              have hp' := hsame _ _ hbound _ _ _ hp
              have hdrop : ((b :: bs).drop size).length ≤ bound := by
                rw [List.length_drop]
                omega
              simp only [walk, hp, Walk.cons] at h
              obtain ⟨hending, hitems, hstate, hused⟩ := ih next ((b :: bs).drop size) hdrop h
              simp [walk, hp, hp', Walk.cons, hending, hitems, hstate, hused]

theorem walk_agree_torn (p : σ → List β → Piece σ ε α) {q : σ → List β → Piece σ ε' α} (bound : Nat) {e : ε'}
    (hsame : ∀ s bs, bs.length ≤ bound → ∀ a next size,
      p s bs = .item a next size → q s bs = .item a next size)
    (n : Nat) (s : σ) (bs : List β) (hbound : bs.length ≤ bound) (h : (walk p n s bs).ending = .torn)
    (hrest : q (walk p n s bs).state (bs.drop (walk p n s bs).used) = .invalid e)
    (henough : (walk p n s bs).items.length < n) :
    (walk q n s bs).ending = .failed e := by
  induction n generalizing s bs with
  | zero => exact absurd henough (Nat.not_lt_zero _)
  | succ n ih =>
      cases bs with
      | nil => cases h
      | cons b bs =>
          cases hp : p s (b :: bs) with
          | short =>
              have hinvalid : q s (b :: bs) = .invalid e := by simpa [walk, hp] using hrest
              simp [walk, hinvalid]
          | invalid e' => simp [walk, hp] at h
          | item a next size =>
              have hp' := hsame _ _ hbound _ _ _ hp
              have hdrop : ((b :: bs).drop size).length ≤ bound := by
                rw [List.length_drop]
                omega
              simp only [walk, hp, Walk.cons, List.length_cons] at h hrest henough
              rw [← List.drop_drop] at hrest
              simp only [walk, hp', Walk.cons]
              exact ih next _ hdrop h hrest (by omega)

section Writing

def frames (frame : σ → α → List β) (next : σ → α → σ) : σ → List α → List β
  | _, [] => []
  | s, a :: as => frame s a ++ frames frame next (next s a) as

variable {frame : σ → α → List β} {next : σ → α → σ} {piece : σ → List β → Piece σ ε α}

theorem frames_append (s : σ) (as bs : List α) :
    frames frame next s (as ++ bs) = frames frame next s as ++ frames frame next (as.foldl next s) bs := by
  induction as generalizing s with
  | nil => rfl
  | cons a as ih => simp [frames, ih]

/-- Every frame is read back, and of a frame that is cut short nothing is. -/
structure Reads (piece : σ → List β → Piece σ ε α) (frame : σ → α → List β) (next : σ → α → σ)
    (fits : σ → α → Prop) : Prop where
  pos : ∀ s a, 0 < (frame s a).length
  whole : ∀ {s a} (rest : List β), fits s a → piece s (frame s a ++ rest) = .item a (next s a) (frame s a).length
  cut : ∀ {s a} (m : Nat), fits s a → 0 < m → m < (frame s a).length → piece s ((frame s a).take m) = .short

def Fitting (fits : σ → α → Prop) (next : σ → α → σ) : σ → List α → Prop
  | _, [] => True
  | s, a :: as => fits s a ∧ Fitting fits next (next s a) as

theorem Fitting.append {fits : σ → α → Prop} {s : σ} {as : List α} {a : α} (h : Fitting fits next s as)
    (ha : fits (as.foldl next s) a) : Fitting fits next s (as ++ [a]) := by
  induction as generalizing s with
  | nil => exact ⟨ha, trivial⟩
  | cons b as ih => exact ⟨h.1, ih h.2 ha⟩

variable {fits : σ → α → Prop}

theorem walk_frame (hreads : Reads piece frame next fits) {n : Nat} {s : σ} {a : α} (ha : fits s a) (rest : List β) :
    walk piece (n + 1) s (frame s a ++ rest) = (walk piece n (next s a) rest).cons a (frame s a).length := by
  have hne : frame s a ++ rest ≠ [] := by
    intro hnil
    have hpos := hreads.pos s a
    rw [(List.append_eq_nil_iff.mp hnil).1] at hpos
    exact absurd hpos (Nat.lt_irrefl 0)
  rw [walk_item hne (hreads.whole rest ha), List.drop_left]

theorem walk_frames (hreads : Reads piece frame next fits) (n : Nat) (s : σ) (as : List α) (tail : List β)
    (h : Fitting fits next s as) (hn : (frames frame next s as ++ tail).length ≤ n)
    (htail : tail = [] ∨ ∃ a m, fits (as.foldl next s) a ∧ 0 < m ∧ m < (frame (as.foldl next s) a).length ∧
      tail = (frame (as.foldl next s) a).take m) :
    walk piece n s (frames frame next s as ++ tail) =
      ⟨as, as.foldl next s, (frames frame next s as).length, bif tail.isEmpty then .clean else .torn⟩ := by
  induction as generalizing s n with
  | nil =>
      rcases htail with rfl | ⟨a, m, ha, hpos, hlt, rfl⟩
      · simp [frames]
      · have hne : (frame s a).take m ≠ [] := by
          intro hnil
          have hlen := congrArg List.length hnil
          simp only [List.length_take, List.length_nil] at hlen
          simp only [List.foldl_nil] at hlt
          omega
        have hempty : ((frame s a).take m).isEmpty = false := by simpa using hne
        simp only [frames, List.nil_append, List.foldl_nil] at *
        rw [walk_short hne (hreads.cut m ha hpos hlt), hempty]
        rfl
  | cons a as ih =>
      have hpos := hreads.pos s a
      simp only [frames, List.append_assoc] at hn ⊢
      rw [List.length_append] at hn
      obtain ⟨k, rfl⟩ : ∃ k, n = k + 1 := ⟨n - 1, by omega⟩
      rw [walk_frame hreads h.1, ih k (next s a) h.2 (by omega) htail]
      simp [Walk.cons]

end Writing

end EtranProcessing.Library.FrameLog
