import Mathlib.Algebra.Ring.Nat
import Mathlib.Data.List.Basic
import Mathlib.Data.Nat.Notation
import Mathlib.Logic.Function.Basic

/-!
# Assembling, linking and loading data

Directives append to the current section and define labels in it.  Once the sections have addresses,
a `.quad` of a label becomes its address, and the bytes of a section are put into memory.

* `step`, `assemble` — the object that is assembled from directives, or `none` for an error;
* `Grows` — **nothing that is assembled is taken back**;
* `Bracketed` — an item between two labels; `assemble_blocks` — a loop that writes such items;
* `Bracketed.read` — **the bytes of the item are in memory between the addresses of its labels**.
-/

namespace RCoreKernel.Assembler

/-- The operand of a `.quad`. -/
inductive Quad where
  | number (n : ℕ)
  | symbol (label : String)

inductive Directive where
  | align (exponent : ℕ)
  | inSection (name : String)
  | global (label : String)
  | label (name : String)
  | quad (value : Quad)
  | ascii (text : String)
  | incbin (path : String)

/-- What a section consists of. -/
inductive Item where
  | bytes (data : List UInt8)
  | quad (value : Quad)

def Item.size : Item → ℕ
  | .bytes data => data.length
  | .quad _ => 8

def size (items : List Item) : ℕ := (items.map Item.size).sum

@[simp] theorem size_nil : size [] = 0 := rfl

@[simp] theorem size_cons (it : Item) (items : List Item) :
    size (it :: items) = it.size + size items := List.sum_cons

@[simp] theorem size_append (items items' : List Item) :
    size (items ++ items') = size items + size items' := by
  rw [size, List.map_append, List.sum_append, ← size, ← size]

theorem size_quads (quads : List Quad) : size (quads.map .quad) = 8 * quads.length := by
  induction quads with
  | nil => rfl
  | cons q quads ih =>
    rw [List.map_cons, size_cons, ih, List.length_cons, Item.size]
    omega

/-- An object under construction: each section has its items and the exponent of its alignment, each
label a section and an offset in it. -/
structure Object where
  current : String
  items : String → List Item
  exponent : String → ℕ
  labels : String → Option (String × ℕ)
  globals : List String

def Object.append (o : Object) (it : Item) : Object :=
  { o with items := Function.update o.items o.current (o.items o.current ++ [it]) }

/-- The size of the current section. -/
def Object.here (o : Object) : ℕ := size (o.items o.current)

/-- The text has no new line, quote or backslash, so between quotes it stands for itself. -/
def plain (text : String) : Bool := text.toList.all fun c => !([10, 34, 92].contains c.toNat)

/-- One directive.  A label that is defined already, text with escapes and a missing file are
errors. -/
def step (files : String → Option (List UInt8)) (o : Object) : Directive → Option Object
  | .align k =>
    let o' := o.append (.bytes (List.replicate ((2 ^ k - o.here % 2 ^ k) % 2 ^ k) 0))
    some { o' with exponent := Function.update o.exponent o.current (max (o.exponent o.current) k) }
  | .inSection name => some { o with current := name }
  | .global label => some { o with globals := label :: o.globals }
  | .label name =>
    match o.labels name with
    | some _ => none
    | none => some { o with labels := Function.update o.labels name (some (o.current, o.here)) }
  | .quad value => some (o.append (.quad value))
  | .ascii text =>
    if plain text then some (o.append (.bytes (text.toList.flatMap String.utf8EncodeChar))) else none
  | .incbin path => if plain path then (files path).map fun data => o.append (.bytes data) else none

def assemble (files : String → Option (List UInt8)) (directives : List Directive) (o : Object) :
    Option Object :=
  directives.foldlM (step files) o

variable {files : String → Option (List UInt8)} {o o' o'' : Object} {place : String → ℕ}
variable {s : String} {data : List UInt8}

@[simp] theorem step_inSection (name : String) :
    step files o (.inSection name) = some { o with current := name } := rfl

@[simp] theorem step_global (label : String) :
    step files o (.global label) = some { o with globals := label :: o.globals } := rfl

@[simp] theorem step_quad (value : Quad) :
    step files o (.quad value) = some (o.append (.quad value)) := rfl

/-- An alignment adds bytes to the section, and is an alignment of the section from then on. -/
theorem step_align (k : ℕ) :
    ∃ o' padding, step files o (.align k) = some o' ∧ o'.current = o.current ∧
      o'.items o.current = o.items o.current ++ [.bytes padding] ∧ o'.labels = o.labels ∧
      k ≤ o'.exponent o.current := by
  refine ⟨_, _, rfl, rfl, Function.update_self .., rfl, ?_⟩
  simp only [Function.update_self]
  exact Nat.le_max_right _ _

theorem step_label {name : String} (h : o.labels name = none) :
    step files o (.label name) =
      some { o with labels := Function.update o.labels name (some (o.current, o.here)) } := by
  rw [step, h]

@[simp] theorem assemble_nil : assemble files [] o = some o := rfl

@[simp] theorem assemble_cons (d : Directive) (ds : List Directive) :
    assemble files (d :: ds) o = (step files o d).bind (assemble files ds) := rfl

theorem assemble_append (ds ds' : List Directive) :
    assemble files (ds ++ ds') o = (assemble files ds o).bind (assemble files ds') := by
  rw [assemble, List.foldlM_append]
  rfl

/-- A list of quads is appended to the current section. -/
theorem assemble_quads (quads : List Quad) :
    assemble files (quads.map .quad) o = some { o with
      items := Function.update o.items o.current (o.items o.current ++ quads.map .quad) } := by
  induction quads generalizing o with
  | nil =>
    rw [List.map_nil, List.map_nil, List.append_nil, Function.update_eq_self]
    rfl
  | cons q quads ih =>
    rw [List.map_cons, assemble_cons, step_quad, Option.bind_some, ih]
    simp only [Object.append, Function.update_self, Function.update_idem, List.map_cons,
      List.append_assoc, List.singleton_append]

/-- Everything in `o` is still there in `o'`. -/
structure Grows (o o' : Object) : Prop where
  items : ∀ s, o.items s <+: o'.items s
  exponent : ∀ s, o.exponent s ≤ o'.exponent s
  labels : ∀ l p, o.labels l = some p → o'.labels l = some p
  globals : ∀ l ∈ o.globals, l ∈ o'.globals

theorem Grows.refl (o : Object) : Grows o o :=
  ⟨fun _ => List.prefix_rfl, fun _ => Nat.le_refl _, fun _ _ h => h, fun _ h => h⟩

theorem Grows.trans (h : Grows o o') (h' : Grows o' o'') : Grows o o'' :=
  ⟨fun s => (h.items s).trans (h'.items s), fun s => Nat.le_trans (h.exponent s) (h'.exponent s),
    fun l p hl => h'.labels l p (h.labels l p hl), fun l hl => h'.globals l (h.globals l hl)⟩

theorem Grows.append (o : Object) (it : Item) : Grows o (o.append it) := by
  refine ⟨fun s => ?_, fun _ => Nat.le_refl _, fun _ _ h => h, fun _ h => h⟩
  rw [Object.append]
  by_cases hs : s = o.current
  · subst hs
    simp only [Function.update_self]
    exact List.prefix_append _ _
  · simp only [Function.update_of_ne hs]
    exact List.prefix_rfl

/-- One directive takes nothing back. -/
theorem step_grows {d : Directive} (h : step files o d = some o') : Grows o o' := by
  cases d with
  | align k =>
    cases h
    refine ⟨(Grows.append o _).items, fun s => ?_, fun _ _ h => h, fun _ h => h⟩
    by_cases hs : s = o.current
    · subst hs
      simp only [Function.update_self]
      exact Nat.le_max_left _ _
    · simp only [Function.update_of_ne hs]
      exact Nat.le_refl _
  | inSection name =>
    cases h
    exact ⟨fun _ => List.prefix_rfl, fun _ => Nat.le_refl _, fun _ _ h => h, fun _ h => h⟩
  | global label =>
    cases h
    exact ⟨fun _ => List.prefix_rfl, fun _ => Nat.le_refl _, fun _ _ h => h,
      fun _ h => List.mem_cons_of_mem _ h⟩
  | label name =>
    rw [step] at h
    split at h
    · cases h
    · rename_i hnew
      cases h
      refine ⟨fun _ => List.prefix_rfl, fun _ => Nat.le_refl _, fun l p hl => ?_, fun _ h => h⟩
      have hne : l ≠ name := by
        rintro rfl
        rw [hnew] at hl
        cases hl
      simp only [Function.update_of_ne hne, hl]
  | quad value =>
    cases h
    exact Grows.append o _
  | ascii text =>
    rw [step] at h
    split at h
    · cases h
      exact Grows.append o _
    · cases h
  | incbin path =>
    rw [step] at h
    split at h
    · obtain ⟨data, -, rfl⟩ := Option.map_eq_some_iff.mp h
      exact Grows.append o _
    · cases h

/-- **Nothing that is assembled is taken back.** -/
theorem assemble_grows {ds : List Directive} (h : assemble files ds o = some o') : Grows o o' := by
  induction ds generalizing o with
  | nil =>
    cases h
    exact Grows.refl _
  | cons d ds ih =>
    rw [assemble_cons] at h
    obtain ⟨o₁, h₁, h₂⟩ := Option.bind_eq_some_iff.mp h
    exact (step_grows h₁).trans (ih h₂)

/-! ## Data between two labels -/

/-- `it` stands in the section between the two labels. -/
def Bracketed (o : Object) (s start stop : String) (it : Item) : Prop :=
  ∃ before after, o.items s = before ++ it :: after ∧ o.labels start = some (s, size before) ∧
    o.labels stop = some (s, size before + it.size)

theorem Bracketed.mono {start stop : String} {it : Item} (h : Bracketed o s start stop it)
    (hg : Grows o o') : Bracketed o' s start stop it := by
  obtain ⟨before, after, hitems, hstart, hstop⟩ := h
  obtain ⟨more, hmore⟩ := hg.items s
  refine ⟨before, after ++ more, ?_, hg.labels _ _ hstart, hg.labels _ _ hstop⟩
  rw [← hmore, hitems, List.append_assoc, List.cons_append]

/-- An item in the section `s`, between two labels that other objects may refer to. -/
def block (s start stop : String) (content : Directive) : List Directive :=
  [.inSection s, .global start, .global stop, .label start, content, .label stop]

/-- The object after a block. -/
def Object.bracket (o : Object) (s start stop : String) (data : List UInt8) : Object where
  current := s
  items := Function.update o.items s (o.items s ++ [.bytes data])
  exponent := o.exponent
  labels := Function.update (Function.update o.labels start (some (s, size (o.items s)))) stop
    (some (s, size (o.items s) + data.length))
  globals := stop :: start :: o.globals

theorem assemble_block {start stop : String} {content : Directive}
    (hstart : o.labels start = none) (hstop : o.labels stop = none) (hne : start ≠ stop)
    (hcontent : ∀ o, step files o content = some (o.append (.bytes data))) :
    assemble files (block s start stop content) o = some (o.bracket s start stop data) := by
  have hstop' : Function.update o.labels start (some (s, size (o.items s))) stop = none := by
    rw [Function.update_of_ne hne.symm, hstop]
  simp only [block, assemble_cons, step_inSection, step_global, Option.bind_some]
  rw [step_label (by exact hstart), Option.bind_some, assemble_cons, hcontent, Option.bind_some,
    assemble_cons, step_label (by exact hstop')]
  simp only [assemble_nil, Option.bind_some, Object.append, Object.here, Object.bracket,
    Function.update_self, size_append, size_cons, size_nil, Item.size, Nat.add_zero]

theorem bracketed_bracket {start stop : String} (hne : start ≠ stop) :
    Bracketed (o.bracket s start stop data) s start stop (.bytes data) := by
  refine ⟨o.items s, [], Function.update_self .., ?_, Function.update_self ..⟩
  simp only [Object.bracket, Function.update_of_ne hne, Function.update_self]

/-- **A loop of blocks.**  It can be assembled when its labels are new, and then each datum stands
between its labels. -/
theorem assemble_blocks {α : Type} {start stop : ℕ → String} {content : α → Directive}
    {bytes : α → List UInt8} (hstart : Function.Injective start) (hstop : Function.Injective stop)
    (hne : ∀ i j, start i ≠ stop j) (xs : List α) (k : ℕ)
    (hcontent : ∀ x ∈ xs, ∀ o, step files o (content x) = some (o.append (.bytes (bytes x))))
    (hfresh : ∀ i, k ≤ i → o.labels (start i) = none ∧ o.labels (stop i) = none) :
    ∃ o', assemble files
        ((xs.zipIdx k).flatMap fun x => block s (start x.2) (stop x.2) (content x.1)) o = some o' ∧
      (∀ x ∈ xs.zipIdx k, Bracketed o' s (start x.2) (stop x.2) (.bytes (bytes x.1))) ∧
      (∀ it ∈ o'.items s, it ∈ o.items s ∨ ∃ d, it = .bytes d) ∧
      (∀ l, (∀ i, l ≠ start i ∧ l ≠ stop i) → o'.labels l = o.labels l) ∧
      (o.current = s → o'.current = s) := by
  induction xs generalizing o k with
  | nil => exact ⟨o, rfl, by simp, fun it h => Or.inl h, fun _ _ => rfl, id⟩
  | cons x xs ih =>
    have hblock : assemble files (block s (start k) (stop k) (content x)) o =
        some (o.bracket s (start k) (stop k) (bytes x)) :=
      assemble_block (hfresh k (Nat.le_refl _)).1 (hfresh k (Nat.le_refl _)).2 (hne k k)
        (hcontent x List.mem_cons_self)
    have hothers : ∀ l, l ≠ start k → l ≠ stop k →
        (o.bracket s (start k) (stop k) (bytes x)).labels l = o.labels l := by
      intro l hl hl'
      simp only [Object.bracket, Function.update_of_ne hl, Function.update_of_ne hl']
    have hfresh' : ∀ i, k + 1 ≤ i →
        (o.bracket s (start k) (stop k) (bytes x)).labels (start i) = none ∧
          (o.bracket s (start k) (stop k) (bytes x)).labels (stop i) = none := by
      intro i hi
      have hik : i ≠ k := by omega
      rw [hothers _ (hstart.ne hik) (hne i k), hothers _ (hne k i).symm (hstop.ne hik)]
      exact hfresh i (by omega)
    obtain ⟨o', hrun, hbracketed, hitems, hlabels, hcurrent⟩ :=
      ih (k + 1) (fun y hy => hcontent y (List.mem_cons_of_mem _ hy)) hfresh'
    refine ⟨o', ?_, ?_, ?_, ?_, fun _ => hcurrent rfl⟩
    · rw [List.zipIdx_cons, List.flatMap_cons, assemble_append, hblock, Option.bind_some, hrun]
    · intro y hy
      rw [List.zipIdx_cons, List.mem_cons] at hy
      rcases hy with rfl | hy
      · exact (bracketed_bracket (hne k k)).mono (assemble_grows hrun)
      · exact hbracketed y hy
    · intro it hit
      rcases hitems it hit with h | h
      · simp only [Object.bracket, Function.update_self, List.mem_append, List.mem_singleton] at h
        exact h.imp_right fun h => ⟨_, h⟩
      · exact Or.inr h
    · intro l hl
      rw [hlabels l hl, hothers l (hl k).1 (hl k).2]

/-! ## Linking and loading -/

/-- The `n` lowest bytes of a number, the lowest first. -/
def littleEndian : ℕ → ℕ → List UInt8
  | 0, _ => []
  | n + 1, v => UInt8.ofNat v :: littleEndian n (v / 256)

def ofLittleEndian (bytes : List UInt8) : ℕ := bytes.foldr (fun b acc => b.toNat + 256 * acc) 0

theorem length_littleEndian (n v : ℕ) : (littleEndian n v).length = n := by
  induction n generalizing v with
  | zero => rfl
  | succ n ih => rw [littleEndian, List.length_cons, ih]

theorem ofLittleEndian_littleEndian (n v : ℕ) :
    ofLittleEndian (littleEndian n v) = v % 256 ^ n := by
  induction n generalizing v with
  | zero => simp [littleEndian, ofLittleEndian, Nat.mod_one]
  | succ n ih =>
    have hcons : ofLittleEndian (littleEndian (n + 1) v) =
        (UInt8.ofNat v).toNat + 256 * ofLittleEndian (littleEndian n (v / 256)) := rfl
    have hbyte : (UInt8.ofNat v).toNat = v % 256 := UInt8.toNat_ofNat'
    have hmod : v % (256 * 256 ^ n) = v % 256 + 256 * (v / 256 % 256 ^ n) := Nat.mod_mul
    rw [hcons, ih, hbyte, Nat.pow_succ', hmod]

def Object.address (place : String → ℕ) (o : Object) (label : String) : Option ℕ :=
  (o.labels label).map fun p => place p.1 + p.2

def Quad.value (place : String → ℕ) (o : Object) : Quad → Option ℕ
  | .number n => some n
  | .symbol label => o.address place label

/-- The bytes of an item, or `none` if a label of it is not defined. -/
def Item.link (place : String → ℕ) (o : Object) : Item → Option (List UInt8)
  | .bytes data => some data
  | .quad q => (q.value place o).map (littleEndian 8)

def linkItems (place : String → ℕ) (o : Object) : List Item → Option (List UInt8)
  | [] => some []
  | it :: rest => (it.link place o).bind fun bs => (linkItems place o rest).map (bs ++ ·)

/-- The bytes of a section. -/
def Object.link (place : String → ℕ) (o : Object) (s : String) : Option (List UInt8) :=
  linkItems place o (o.items s)

/-- The address of a label for the other objects. -/
def Object.symbol (place : String → ℕ) (o : Object) (label : String) : Option ℕ :=
  if label ∈ o.globals then o.address place label else none

/-- The memory after `data` has been loaded at `base`. -/
def load (base : ℕ) (data : List UInt8) (rest : ℕ → UInt8) (a : ℕ) : UInt8 :=
  if base ≤ a ∧ a - base < data.length then data.getD (a - base) 0 else rest a

def bytesAt (mem : ℕ → UInt8) (a n : ℕ) : List UInt8 := (List.range n).map fun k => mem (a + k)

theorem Item.length_link {it : Item} (h : it.link place o = some data) :
    data.length = it.size := by
  cases it with
  | bytes d =>
    cases h
    rfl
  | quad q =>
    obtain ⟨v, -, rfl⟩ := Option.map_eq_some_iff.mp h
    exact length_littleEndian 8 v

theorem length_linkItems {items : List Item} (h : linkItems place o items = some data) :
    data.length = size items := by
  induction items generalizing data with
  | nil =>
    cases h
    rfl
  | cons it items ih =>
    obtain ⟨bs, hbs, h⟩ := Option.bind_eq_some_iff.mp h
    obtain ⟨rest, hrest, rfl⟩ := Option.map_eq_some_iff.mp h
    rw [List.length_append, Item.length_link hbs, ih hrest, size_cons]

/-- The bytes of one item are at its offset in the bytes of the section. -/
theorem linkItems_split {before after : List Item} {it : Item}
    (h : linkItems place o (before ++ it :: after) = some data) :
    ∃ bs, it.link place o = some bs ∧ (data.drop (size before)).take it.size = bs ∧
      size before + it.size ≤ data.length := by
  induction before generalizing data with
  | nil =>
    rw [List.nil_append, linkItems] at h
    obtain ⟨bs, hbs, h⟩ := Option.bind_eq_some_iff.mp h
    obtain ⟨rest, -, rfl⟩ := Option.map_eq_some_iff.mp h
    have hlen := Item.length_link hbs
    refine ⟨bs, hbs, ?_, ?_⟩
    · rw [size_nil, List.drop_zero, ← hlen, List.take_left]
    · rw [size_nil, List.length_append]
      omega
  | cons x before ih =>
    rw [List.cons_append, linkItems] at h
    obtain ⟨xs, hxs, h⟩ := Option.bind_eq_some_iff.mp h
    obtain ⟨rest, hrest, rfl⟩ := Option.map_eq_some_iff.mp h
    obtain ⟨bs, hbs, htake, hle⟩ := ih hrest
    have hlen := Item.length_link hxs
    refine ⟨bs, hbs, ?_, ?_⟩
    · rw [size_cons, ← hlen, ← List.drop_drop, List.drop_left, htake]
    · rw [size_cons, List.length_append]
      omega

theorem linkItems_isSome {items : List Item} (h : ∀ it ∈ items, (it.link place o).isSome) :
    ∃ data, linkItems place o items = some data := by
  induction items with
  | nil => exact ⟨[], rfl⟩
  | cons it items ih =>
    obtain ⟨bs, hbs⟩ := Option.isSome_iff_exists.mp (h it List.mem_cons_self)
    obtain ⟨rest, hrest⟩ := ih fun x hx => h x (List.mem_cons_of_mem _ hx)
    exact ⟨bs ++ rest, by rw [linkItems, hbs, Option.bind_some, hrest, Option.map_some]⟩

theorem bytesAt_load {base offset n : ℕ} {rest : ℕ → UInt8} (h : offset + n ≤ data.length) :
    bytesAt (load base data rest) (base + offset) n = (data.drop offset).take n := by
  apply List.ext_getElem
  · rw [bytesAt, List.length_map, List.length_range, List.length_take, List.length_drop]
    omega
  · intro k hk hk'
    rw [bytesAt, List.length_map, List.length_range] at hk
    have hsub : base + offset + k - base = offset + k := by omega
    rw [List.getElem_take, List.getElem_drop]
    simp only [bytesAt, List.getElem_map, List.getElem_range, load, hsub]
    rw [if_pos ⟨by omega, by omega⟩, List.getD_eq_getElem?_getD, List.getElem?_eq_getElem (by omega),
      Option.getD_some]

/-- **An item is in memory at its offset from the address of its section.** -/
theorem item_read {before after : List Item} {it : Item} (hitems : o.items s = before ++ it :: after)
    (hlink : o.link place s = some data) (rest : ℕ → UInt8) :
    ∃ bs, it.link place o = some bs ∧ size before + it.size ≤ data.length ∧
      bytesAt (load (place s) data rest) (place s + size before) it.size = bs := by
  rw [Object.link, hitems] at hlink
  obtain ⟨bs, hbs, htake, hle⟩ := linkItems_split hlink
  exact ⟨bs, hbs, hle, by rw [bytesAt_load hle, htake]⟩

/-- **The bytes are in memory between the addresses of their labels.** -/
theorem Bracketed.read {start stop : String} {bytes : List UInt8}
    (h : Bracketed o s start stop (.bytes bytes)) (hlink : o.link place s = some data)
    (rest : ℕ → UInt8) :
    ∃ a, o.address place start = some a ∧ o.address place stop = some (a + bytes.length) ∧
      place s ≤ a ∧ a + bytes.length ≤ place s + data.length ∧
      bytesAt (load (place s) data rest) a bytes.length = bytes := by
  obtain ⟨before, after, hitems, hstart, hstop⟩ := h
  obtain ⟨bs, hbs, hle, hread⟩ := item_read hitems hlink rest
  cases hbs
  simp only [Item.size] at hle hread hstop
  refine ⟨place s + size before, ?_, ?_, ?_, ?_, hread⟩
  · rw [Object.address, hstart, Option.map_some]
  · rw [Object.address, hstop, Option.map_some, Nat.add_assoc]
  · omega
  · omega

end RCoreKernel.Assembler
