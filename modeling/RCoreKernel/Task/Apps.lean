import Mathlib.Data.List.Sort
import Mathlib.Data.String.Basic
import Std.Data.String.ToNat
import RCoreKernel.Lib.Assembler
import RCoreKernel.Lib.Utf8
import RCoreKernel.Mm.Address

/-!
# The table of the apps

`build.rs` writes assembly text with the number of the apps, four addresses for each of them, their
names and their ELF files.  `apps.rs` finds them again from `_num_apps` by its own item count.

* `generateAsm` — what the build script writes; `getTotalApps`, `getAppName`, `getAppElf`;
* `table_item` — the items of the table, by the index that the kernel computes;
* `Assembled`, `assemble_generateAsm` — the object that is assembled;
* `apps_decoded` — **the kernel finds the names and the files that have been written**, and for an
  index without an app it makes a slice at the null pointer.
-/

namespace RCoreKernel.Task.Apps

open Mm Assembler

/-! ## The build script -/

def elfDir : String := "../user/target/riscv64gc-unknown-none-elf/release"

def label (i : ℕ) (part : String) : String := s!"app_{i}_{part}"

def nameStart (i : ℕ) : String := label i "name_start"

def nameEnd (i : ℕ) : String := label i "name_end"

def elfStart (i : ℕ) : String := label i "elf_start"

def elfEnd (i : ℕ) : String := label i "elf_end"

/-- The addresses that the table has for an app. -/
def metaItems (i : ℕ) : List Quad :=
  [.symbol (nameStart i), .symbol (nameEnd i), .symbol (elfStart i), .symbol (elfEnd i)]

/-- The top summary part. -/
def summaryPart (totalApps : ℕ) : List Directive :=
  [.align 3, .inSection ".data", .global "_num_apps", .label "_num_apps",
    .quad (.number totalApps)] ++
  (List.range totalApps).flatMap fun i => (metaItems i).map .quad

/-- `write_app_asms`. -/
def writeAppAsms (appNames : List String) : List Directive :=
  summaryPart appNames.length ++
  appNames.zipIdx.flatMap (fun x =>
    block ".data" (nameStart x.2) (nameEnd x.2) (.ascii x.1)) ++
  [.align 3] ++
  appNames.zipIdx.flatMap fun x =>
    block ".data" (elfStart x.2) (elfEnd x.2) (.incbin s!"{elfDir}/{x.1}")

def sortNames (names : List String) : List String := names.mergeSort fun a b => decide (a ≤ b)

/-- `generate_asm`, for the names that `get_app_names` returns. -/
def generateAsm (names : List String) : List Directive := writeAppAsms (sortNames names)

/-! ## The kernel -/

/-- What the kernel reads from: the address of `_num_apps`, and memory. -/
structure AppImage where
  numApps : ℕ
  mem : ℕ → UInt8

def appMetaItems : ℕ := 4

/-- `get_app_meta_base().add(n).read()`.  A read that is not aligned is undefined. -/
def AppImage.read (k : AppImage) (n : ℕ) : Option ℕ :=
  let address := k.numApps + 8 * n
  if address % 8 = 0 then some (ofLittleEndian (bytesAt k.mem address 8)) else none

/-- `slice::from_raw_parts`.  The pointer must not be null, also for an empty slice, and the length
is at most `isize::MAX`; the rest is undefined. -/
def AppImage.fromRawParts (k : AppImage) (pointer len : ℕ) : Option (List UInt8) :=
  if pointer = 0 ∨ 2 ^ 63 ≤ len then none else some (bytesAt k.mem pointer len)

def getTotalApps (k : AppImage) : Option ℕ := k.read 0

def getAppName (k : AppImage) (appIndex : ℕ) : Option String := do
  let total ← getTotalApps k
  if total ≤ appIndex then
    return ""
  let nameStart ← k.read (appIndex * appMetaItems + 1)
  let nameEnd ← k.read (appIndex * appMetaItems + 2)
  let slice ← k.fromRawParts nameStart (wrappingSub nameEnd nameStart)
  return ((Utf8.fromUtf8 slice).map String.ofList).getD ""

def getAppElfStart (k : AppImage) (appIndex : ℕ) : Option ℕ := do
  let total ← getTotalApps k
  if total ≤ appIndex then
    return 0
  k.read (appIndex * appMetaItems + 3)

def getAppElfEnd (k : AppImage) (appIndex : ℕ) : Option ℕ := do
  let total ← getTotalApps k
  if total ≤ appIndex then
    return 0
  k.read (appIndex * appMetaItems + 4)

def getAppElf (k : AppImage) (appIndex : ℕ) : Option (List UInt8) := do
  let elfStart ← getAppElfStart k appIndex
  let elfEnd ← getAppElfEnd k appIndex
  k.fromRawParts elfStart (wrappingSub elfEnd elfStart)

/-! ## Labels -/

theorem underscore_injective {i j : ℕ} {p q : List Char}
    (h : i.repr.toList ++ '_' :: p = j.repr.toList ++ '_' :: q) : i = j ∧ p = q := by
  have hdigits : ∀ n : ℕ, ∀ c ∈ n.repr.toList, (c != '_') = true := by
    intro n c hc
    rw [bne_iff_ne]
    rintro rfl
    rw [Nat.toList_repr] at hc
    exact Nat.underscore_not_in_toDigits hc
  have htake : ∀ (n : ℕ) (r : List Char),
      (n.repr.toList ++ '_' :: r).takeWhile (· != '_') = n.repr.toList := by
    intro n r
    rw [List.takeWhile_append_of_pos (hdigits n), List.takeWhile_cons, if_neg (by simp),
      List.append_nil]
  have hrepr : i.repr.toList = j.repr.toList := by rw [← htake i p, h, htake]
  have hij : i = j := Nat.repr_injective (String.toList_injective hrepr)
  subst hij
  have hcons := List.append_cancel_left h
  exact ⟨rfl, (List.cons.inj hcons).2⟩

theorem toList_label (i : ℕ) (part : String) :
    (label i part).toList = "app_".toList ++ (i.repr.toList ++ '_' :: part.toList) := by
  have hlabel : label i part = "app_" ++ i.repr ++ "_" ++ part := rfl
  rw [hlabel, String.toList_append, String.toList_append, String.toList_append, List.append_assoc,
    List.append_assoc]
  rfl

/-- Labels agree only for the same index and the same part. -/
theorem label_injective {i j : ℕ} {p q : String} (h : label i p = label j q) : i = j ∧ p = q := by
  have hlist := congrArg String.toList h
  rw [toList_label, toList_label] at hlist
  obtain ⟨hij, hpq⟩ := underscore_injective (List.append_cancel_left hlist)
  exact ⟨hij, String.toList_injective hpq⟩

theorem label_left_injective (part : String) : Function.Injective fun i => label i part :=
  fun _ _ h => (label_injective h).1

theorem label_ne {p q : String} (h : p ≠ q) (i j : ℕ) : label i p ≠ label j q :=
  fun heq => h (label_injective heq).2

theorem head_label (i : ℕ) (part : String) : (label i part).toList.head? = some 'a' := by
  rw [toList_label]
  rfl

/-! ## The items of the table -/

/-- The quads before the names. -/
def table (n : ℕ) : List Quad := .number n :: (List.range n).flatMap metaItems

theorem length_flatMap_metaItems (n : ℕ) : ((List.range n).flatMap metaItems).length = 4 * n := by
  induction n with
  | zero => rfl
  | succ n ih =>
    rw [List.range_succ, List.flatMap_append, List.length_append, ih]
    simp [metaItems]
    omega

/-- **The reader's index of an item is the writer's.** -/
theorem table_item {n i j : ℕ} (hi : i < n) (hj : j < 4) :
    (table n)[i * appMetaItems + (j + 1)]? = (metaItems i)[j]? := by
  have hindex : i * appMetaItems + (j + 1) = (4 * i + j) + 1 := by
    rw [appMetaItems]
    omega
  rw [hindex, table, List.getElem?_cons_succ]
  induction n with
  | zero => omega
  | succ n ih =>
    rw [List.range_succ, List.flatMap_append]
    rcases Nat.lt_succ_iff_lt_or_eq.mp hi with h | rfl
    · rw [List.getElem?_append_left (by rw [length_flatMap_metaItems]; omega), ih h]
    · rw [List.getElem?_append_right (by rw [length_flatMap_metaItems]; omega),
        length_flatMap_metaItems, Nat.add_sub_cancel_left, List.flatMap_singleton]

theorem mem_table {n : ℕ} {q : Quad} (h : q ∈ table n) :
    q = .number n ∨ ∃ i < n, q ∈ metaItems i := by
  rcases List.mem_cons.mp h with h | h
  · exact Or.inl h
  · obtain ⟨i, hi, hq⟩ := List.mem_flatMap.mp h
    exact Or.inr ⟨i, List.mem_range.mp hi, hq⟩

/-! ## Assembling the table -/

/-- The symbols of `entry.S`, which is assembled before. -/
def entryLabels : List String :=
  ["PAGE_OFFSET", "SATP_SV39_MODE", "PTE_FLAG_RWXV", "_start", ".L_activate_boot_pgt", "Init1",
    "Loop1", "Done1", "Init2", "Loop2", "Done2"]

/-- An object that `entry.S` can leave: it has code only. -/
structure AfterEntry (o : Object) : Prop where
  current : o.current = ".text.entry"
  data : o.items ".data" = []
  labels : ∀ l, l ∉ entryLabels → o.labels l = none

theorem AfterEntry.fresh {o : Object} (h : AfterEntry o) {l : String}
    (hl : l.toList.head? = some 'a') : o.labels l = none := by
  apply h.labels
  intro hmem
  have hheads : ∀ l ∈ entryLabels, l.toList.head? ≠ some 'a' := by decide
  exact hheads l hmem hl

theorem ne_numApps {l : String} (hl : l.toList.head? = some 'a') : l ≠ "_num_apps" := by
  rintro rfl
  exact absurd hl (by decide)

/-- The object after the summary. -/
theorem assemble_summaryPart {files : String → Option (List UInt8)} {entry : Object}
    (h : AfterEntry entry) (n : ℕ) :
    ∃ o, assemble files (summaryPart n) entry = some o ∧ o.current = ".data" ∧
      o.items ".data" = (table n).map .quad ∧ o.labels "_num_apps" = some (".data", 0) ∧
      "_num_apps" ∈ o.globals ∧ ∀ l, l.toList.head? = some 'a' → o.labels l = none := by
  have hne : ".data" ≠ entry.current := by
    rw [h.current]
    decide
  have hnew : entry.labels "_num_apps" = none := h.labels _ (by decide)
  have hquads : (List.range n).flatMap (fun i => (metaItems i).map Directive.quad) =
      ((List.range n).flatMap metaItems).map .quad := by
    rw [List.map_flatMap]
  obtain ⟨o, hrun, rfl⟩ : ∃ o, step files entry (.align 3) = some o ∧ _ = o := ⟨_, rfl, rfl⟩
  rw [summaryPart, hquads, assemble_append]
  simp only [assemble_cons, hrun, Option.bind_some, step_inSection, step_global]
  rw [step_label (by exact hnew)]
  simp only [Option.bind_some, assemble_quads]
  refine ⟨_, rfl, rfl, ?_, ?_, List.mem_cons_self, ?_⟩
  · simp only [Object.append, Function.update_self, Function.update_of_ne hne, h.data]
    rfl
  · simp only [Object.append, Object.here, Function.update_self, Function.update_of_ne hne, h.data,
      size_nil]
  · intro l hl
    simp only [Object.append, Function.update_of_ne (ne_numApps hl)]
    exact h.fresh hl

/-- A character of the names. -/
def nameChar (c : Char) : Bool := c.isAlphanum || c == '_' || c == '-'

theorem plain_of_nameChar {name : String} (h : ∀ c ∈ name.toList, nameChar c = true) :
    plain name = true := by
  rw [plain, List.all_eq_true]
  intro c hc
  have hname := h c hc
  -- the codes of the three characters are not those of the set
  rw [Bool.not_eq_true', ← Bool.not_eq_true]
  intro hcode
  rw [List.contains_iff_mem] at hcode
  simp only [List.mem_cons, List.not_mem_nil, or_false] at hcode
  have hchar : c = Char.ofNat 10 ∨ c = Char.ofNat 34 ∨ c = Char.ofNat 92 := by
    rw [← Char.ofNat_toNat c]
    rcases hcode with h | h | h <;> simp [h]
  rcases hchar with rfl | rfl | rfl <;> exact absurd hname (by decide)

theorem plain_append {a b : String} (ha : plain a = true) (hb : plain b = true) :
    plain (a ++ b) = true := by
  rw [plain, String.toList_append, List.all_append, Bool.and_eq_true]
  exact ⟨ha, hb⟩

theorem step_ascii {files : String → Option (List UInt8)} {name : String}
    (h : ∀ c ∈ name.toList, nameChar c = true) (o : Object) :
    step files o (.ascii name) =
      some (o.append (.bytes (name.toList.flatMap String.utf8EncodeChar))) := by
  rw [step, if_pos (plain_of_nameChar h)]

theorem step_incbin {files : String → Option (List UInt8)} {name : String} {data : List UInt8}
    (h : ∀ c ∈ name.toList, nameChar c = true) (hfile : files s!"{elfDir}/{name}" = some data)
    (o : Object) :
    step files o (.incbin s!"{elfDir}/{name}") = some (o.append (.bytes data)) := by
  have hplain : plain s!"{elfDir}/{name}" = true :=
    plain_append (by decide) (plain_of_nameChar h)
  rw [step, if_pos hplain, hfile, Option.map_some]

/-- The object has the table, the names and the files. -/
structure Assembled (o : Object) (names : List String) (elf : String → List UInt8) : Prop where
  summary : ∃ more, o.items ".data" = (table names.length).map .quad ++ more
  others : ∀ it ∈ o.items ".data", it ∈ (table names.length).map .quad ∨ ∃ d, it = .bytes d
  numApps : o.labels "_num_apps" = some (".data", 0)
  global : "_num_apps" ∈ o.globals
  exponent : 3 ≤ o.exponent ".data"
  name : ∀ x ∈ names.zipIdx, Bracketed o ".data" (nameStart x.2) (nameEnd x.2)
    (.bytes (x.1.toList.flatMap String.utf8EncodeChar))
  elf : ∀ x ∈ names.zipIdx, Bracketed o ".data" (elfStart x.2) (elfEnd x.2) (.bytes (elf x.1))

/-- **The output of the build script is assembled to such an object.** -/
theorem assemble_writeAppAsms {names : List String}
    (hchars : ∀ name ∈ names, ∀ c ∈ name.toList, nameChar c = true)
    {files : String → Option (List UInt8)} {elf : String → List UInt8}
    (hfiles : ∀ name ∈ names, files s!"{elfDir}/{name}" = some (elf name)) {entry : Object}
    (hentry : AfterEntry entry) :
    ∃ o, assemble files (writeAppAsms names) entry = some o ∧ Assembled o names elf := by
  obtain ⟨o₁, hrun₁, hcur₁, hitems₁, hnum₁, hglobal₁, hfresh₁⟩ :
      ∃ o, assemble files (summaryPart names.length) entry = some o ∧ _ :=
    assemble_summaryPart hentry names.length
  obtain ⟨o₂, hrun₂, hnames, hitems₂, hlabels₂, hcur₂⟩ :=
    assemble_blocks (o := o₁) (s := ".data") (show Function.Injective nameStart from
      label_left_injective _) (show Function.Injective nameEnd from label_left_injective _)
      (label_ne (by decide)) names 0
      (show ∀ name ∈ names, ∀ o, step files o (.ascii name) = _ from fun name hname =>
        step_ascii (hchars name hname))
      fun i _ => ⟨hfresh₁ _ (head_label i _), hfresh₁ _ (head_label i _)⟩
  obtain ⟨o₃, padding, hrun₃, -, hitems₃, hlabels₃, hexp₃⟩ :
      ∃ o₃ padding, step files o₂ (.align 3) = some o₃ ∧ _ := step_align 3
  -- the labels of the files are not among those of the names
  have hfresh₃ : ∀ i, o₃.labels (elfStart i) = none ∧ o₃.labels (elfEnd i) = none := by
    intro i
    rw [hlabels₃, hlabels₂ (elfStart i) fun j => ⟨label_ne (by decide) i j, label_ne (by decide) i j⟩,
      hlabels₂ (elfEnd i) fun j => ⟨label_ne (by decide) i j, label_ne (by decide) i j⟩]
    exact ⟨hfresh₁ _ (head_label i _), hfresh₁ _ (head_label i _)⟩
  obtain ⟨o₄, hrun₄, helfs, hitems₄, -, -⟩ :=
    assemble_blocks (o := o₃) (s := ".data") (show Function.Injective elfStart from
      label_left_injective _) (show Function.Injective elfEnd from label_left_injective _)
      (label_ne (by decide)) names 0
      (show ∀ name ∈ names, ∀ o, step files o (.incbin s!"{elfDir}/{name}") = _ from
        fun name hname => step_incbin (hchars name hname) (hfiles name hname))
      fun i _ => hfresh₃ i
  have h₃₄ := assemble_grows hrun₄
  have h₂₄ := (step_grows hrun₃).trans h₃₄
  have h₁₄ := (assemble_grows hrun₂).trans h₂₄
  rw [hcur₂ hcur₁] at hitems₃ hexp₃
  refine ⟨o₄, ?_, ?_, ?_, h₁₄.labels _ _ hnum₁, h₁₄.globals _ hglobal₁, ?_,
    fun x hx => (hnames x hx).mono h₂₄, helfs⟩
  · rw [writeAppAsms, assemble_append, assemble_append, assemble_append, hrun₁, Option.bind_some,
      hrun₂, Option.bind_some, assemble_cons, hrun₃, Option.bind_some, assemble_nil,
      Option.bind_some, hrun₄]
  · obtain ⟨more, hmore⟩ := h₁₄.items ".data"
    exact ⟨more, by rw [← hmore, hitems₁]⟩
  · intro it hit
    rcases hitems₄ it hit with h | h
    · rw [hitems₃, List.mem_append, List.mem_singleton] at h
      rcases h with h | h
      · rw [← hitems₁]
        exact hitems₂ it h
      · exact Or.inr ⟨padding, h⟩
    · exact Or.inr h
  · exact hexp₃.trans (h₃₄.exponent ".data")

/-! ## Reading the table -/

def kernelBaseVa : ℕ := 0xffffffc080200000

/-- Where the linker script puts `.data`. -/
structure Placed (place : String → ℕ) (o : Object) (data : List UInt8) : Prop where
  high : kernelBaseVa ≤ place ".data"
  aligned : 2 ^ o.exponent ".data" ∣ place ".data"
  fits : place ".data" + data.length < 2 ^ 64

section Reading

variable {o : Object} {names : List String} {elf : String → List UInt8} {place : String → ℕ}
variable {data : List UInt8}

/-- The name and the file of an app are between their labels. -/
theorem Assembled.bracketed (h : Assembled o names elf) {i : ℕ} (hi : i < names.length) :
    Bracketed o ".data" (nameStart i) (nameEnd i)
        (.bytes (names[i].toList.flatMap String.utf8EncodeChar)) ∧
      Bracketed o ".data" (elfStart i) (elfEnd i) (.bytes (elf names[i])) := by
  have hmem : (names[i], i) ∈ names.zipIdx := by
    rw [List.mem_zipIdx_iff_getElem?, List.getElem?_eq_getElem hi]
  exact ⟨h.name (names[i], i) hmem, h.elf (names[i], i) hmem⟩

/-- The four labels of an app have addresses. -/
theorem Assembled.address (h : Assembled o names elf) {i : ℕ} (hi : i < names.length) {q : Quad}
    (hq : q ∈ metaItems i) : (q.value place o).isSome = true := by
  obtain ⟨⟨_, _, _, hns, hne⟩, ⟨_, _, _, hes, hee⟩⟩ := h.bracketed hi
  simp only [metaItems, List.mem_cons, List.not_mem_nil, or_false] at hq
  rcases hq with rfl | rfl | rfl | rfl <;> simp [Quad.value, Object.address, *]

/-- The section can be linked. -/
theorem Assembled.link (h : Assembled o names elf) :
    ∃ data, o.link place ".data" = some data := by
  apply linkItems_isSome
  intro it hit
  rcases h.others it hit with hmem | ⟨d, rfl⟩
  · obtain ⟨q, hq, rfl⟩ := List.mem_map.mp hmem
    rw [Item.link, Option.isSome_map]
    rcases mem_table hq with rfl | ⟨i, hi, hq⟩
    · rfl
    · exact h.address hi hq
  · rfl

theorem Assembled.symbol (h : Assembled o names elf) :
    o.symbol place "_num_apps" = some (place ".data") := by
  rw [Object.symbol, if_pos h.global, Object.address, h.numApps]
  rfl

/-- **An item of the table is read at its index.** -/
theorem Assembled.read (h : Assembled o names elf) (hlink : o.link place ".data" = some data)
    (hplaced : Placed place o data) (rest : ℕ → UInt8) {n v : ℕ} {q : Quad}
    (hq : (table names.length)[n]? = some q) (hv : q.value place o = some v) (hlt : v < 2 ^ 64) :
    AppImage.read ⟨place ".data", load (place ".data") data rest⟩ n = some v := by
  obtain ⟨more, hmore⟩ := h.summary
  obtain ⟨hn, rfl⟩ := List.getElem?_eq_some_iff.mp hq
  have hitems : o.items ".data" = ((table names.length).take n).map .quad ++
      .quad (table names.length)[n] ::
        (((table names.length).drop (n + 1)).map .quad ++ more) := by
    rw [hmore, ← List.cons_append, ← List.append_assoc, ← List.map_cons, ← List.map_append,
      ← List.drop_eq_getElem_cons, List.take_append_drop]
  obtain ⟨bs, hbs, -, hread⟩ := item_read hitems hlink rest
  rw [Item.link, hv, Option.map_some] at hbs
  cases hbs
  rw [size_quads, List.length_take, Nat.min_eq_left (Nat.le_of_lt hn)] at hread
  have haligned : 8 ∣ place ".data" :=
    (Nat.pow_dvd_pow 2 h.exponent).trans hplaced.aligned
  have hmod : (place ".data" + 8 * n) % 8 = 0 := by omega
  have hbytes : bytesAt (load (place ".data") data rest) (place ".data" + 8 * n) 8 =
      littleEndian 8 v := hread
  have hv : v % 256 ^ 8 = v := Nat.mod_eq_of_lt hlt
  rw [AppImage.read, if_pos hmod, hbytes, ofLittleEndian_littleEndian, hv]

/-- The slice between two addresses in the kernel. -/
theorem fromRawParts_between (k : AppImage) {a len : ℕ} (ha : kernelBaseVa ≤ a)
    (hend : a + len < 2 ^ 64) :
    k.fromRawParts a (wrappingSub (a + len) a) = some (bytesAt k.mem a len) := by
  have hlen : wrappingSub (a + len) a = len := by
    rw [wrappingSub, wrap]
    omega
  rw [kernelBaseVa] at ha
  rw [hlen, AppImage.fromRawParts, if_neg (by omega)]

/-- **Two neighbouring items of the table that are the labels of some bytes.** -/
theorem Assembled.slice (h : Assembled o names elf) (hlink : o.link place ".data" = some data)
    (hplaced : Placed place o data) (rest : ℕ → UInt8) {n : ℕ} {start stop : String}
    {bytes : List UInt8} (hstart : (table names.length)[n]? = some (.symbol start))
    (hstop : (table names.length)[n + 1]? = some (.symbol stop))
    (hb : Bracketed o ".data" start stop (.bytes bytes)) :
    ∃ a b, AppImage.read ⟨place ".data", load (place ".data") data rest⟩ n = some a ∧
      AppImage.read ⟨place ".data", load (place ".data") data rest⟩ (n + 1) = some b ∧
      AppImage.fromRawParts ⟨place ".data", load (place ".data") data rest⟩ a
        (wrappingSub b a) = some bytes := by
  obtain ⟨a, ha, hb, hlow, hhigh, hbytes⟩ := hb.read hlink rest
  have hfits := hplaced.fits
  refine ⟨a, a + bytes.length, ?_, ?_, ?_⟩
  · exact h.read hlink hplaced rest hstart ha (by omega)
  · exact h.read hlink hplaced rest hstop hb (by omega)
  · rw [fromRawParts_between _ (hplaced.high.trans hlow) (by omega), hbytes]

/-- The labels of the name of an app. -/
theorem table_name {n i : ℕ} (hi : i < n) :
    (table n)[i * appMetaItems + 1]? = some (.symbol (nameStart i)) ∧
      (table n)[i * appMetaItems + 2]? = some (.symbol (nameEnd i)) :=
  ⟨table_item hi (by decide), table_item hi (by decide)⟩

/-- The labels of the file of an app. -/
theorem table_elf {n i : ℕ} (hi : i < n) :
    (table n)[i * appMetaItems + 3]? = some (.symbol (elfStart i)) ∧
      (table n)[i * appMetaItems + 4]? = some (.symbol (elfEnd i)) :=
  ⟨table_item hi (by decide), table_item hi (by decide)⟩

theorem Assembled.getTotalApps_eq (h : Assembled o names elf)
    (hlink : o.link place ".data" = some data) (hplaced : Placed place o data)
    (rest : ℕ → UInt8) :
    getTotalApps ⟨place ".data", load (place ".data") data rest⟩ = some names.length := by
  refine h.read hlink hplaced rest rfl rfl ?_
  obtain ⟨more, hmore⟩ := h.summary
  have hfits := hplaced.fits
  have hlen := length_linkItems hlink
  rw [hmore, size_append, size_quads, table, List.length_cons, length_flatMap_metaItems] at hlen
  omega

theorem Assembled.getAppName_eq (h : Assembled o names elf)
    (hlink : o.link place ".data" = some data) (hplaced : Placed place o data)
    (rest : ℕ → UInt8) (i : ℕ) :
    getAppName ⟨place ".data", load (place ".data") data rest⟩ i = some (names.getD i "") := by
  rw [getAppName, h.getTotalApps_eq hlink hplaced rest]
  by_cases hi : i < names.length
  · obtain ⟨hstart, hstop⟩ := table_name hi
    obtain ⟨a, b, ha, hb, hslice⟩ := h.slice hlink hplaced rest hstart hstop (h.bracketed hi).1
    have hnot : ¬names.length ≤ i := by omega
    simp only [Option.bind_eq_bind, Option.bind_some, hnot, if_false, ha, hb, hslice,
      Utf8.fromUtf8_flatMap, Option.map_some, Option.getD_some, String.ofList_toList]
    rw [List.getD_eq_getElem?_getD, List.getElem?_eq_getElem hi]
    rfl
  · have hle : names.length ≤ i := by omega
    simp [hle]

theorem Assembled.getAppElf_eq (h : Assembled o names elf)
    (hlink : o.link place ".data" = some data) (hplaced : Placed place o data)
    (rest : ℕ → UInt8) {i : ℕ} (hi : i < names.length) :
    getAppElf ⟨place ".data", load (place ".data") data rest⟩ i = some (elf names[i]) := by
  obtain ⟨hstart, hstop⟩ := table_elf hi
  obtain ⟨a, b, ha, hb, hslice⟩ := h.slice hlink hplaced rest hstart hstop (h.bracketed hi).2
  have hnot : ¬names.length ≤ i := by omega
  rw [getAppElf, getAppElfStart, getAppElfEnd, h.getTotalApps_eq hlink hplaced rest]
  simp only [Option.bind_eq_bind, Option.bind_some, hnot, if_false, ha, hb, hslice]

/-- Without an app at the index, the slice is at the null pointer. -/
theorem getAppElf_past {k : AppImage} {total i : ℕ} (h : getTotalApps k = some total)
    (hi : total ≤ i) : getAppElf k i = none := by
  rw [getAppElf, getAppElfStart, getAppElfEnd, h]
  simp [hi, AppImage.fromRawParts]

end Reading

theorem sortNames_perm (names : List String) : (sortNames names).Perm names :=
  List.mergeSort_perm names _

theorem sortNames_pairwise (names : List String) : (sortNames names).Pairwise (· ≤ ·) :=
  List.pairwise_mergeSort' (· ≤ ·) names

theorem length_sortNames (names : List String) : (sortNames names).length = names.length :=
  (sortNames_perm names).length_eq

theorem assemble_generateAsm {names : List String}
    (hchars : ∀ name ∈ names, ∀ c ∈ name.toList, nameChar c = true)
    {files : String → Option (List UInt8)} {elf : String → List UInt8}
    (hfiles : ∀ name ∈ names, files s!"{elfDir}/{name}" = some (elf name)) {entry : Object}
    (hentry : AfterEntry entry) :
    ∃ o, assemble files (generateAsm names) entry = some o ∧
      Assembled o (sortNames names) elf := by
  have hsub : ∀ name ∈ sortNames names, name ∈ names := fun name hname =>
    (sortNames_perm names).mem_iff.mp hname
  exact assemble_writeAppAsms (fun name hname => hchars name (hsub name hname))
    (fun name hname => hfiles name (hsub name hname)) hentry

/-- **The kernel finds the names and the files that the build script has written.**  For an index
without an app the name is empty, but the slice of the file is made at the null pointer. -/
theorem apps_decoded {names : List String}
    (hchars : ∀ name ∈ names, ∀ c ∈ name.toList, nameChar c = true)
    {files : String → Option (List UInt8)} {elf : String → List UInt8}
    (hfiles : ∀ name ∈ names, files s!"{elfDir}/{name}" = some (elf name)) {entry : Object}
    (hentry : AfterEntry entry) (place : String → ℕ) (rest : ℕ → UInt8) :
    ∃ o data numApps, assemble files (generateAsm names) entry = some o ∧
      o.link place ".data" = some data ∧ o.symbol place "_num_apps" = some numApps ∧
      (sortNames names).Perm names ∧ (sortNames names).Pairwise (· ≤ ·) ∧
      (Placed place o data →
        getTotalApps ⟨numApps, load (place ".data") data rest⟩ = some names.length ∧
        (∀ i, getAppName ⟨numApps, load (place ".data") data rest⟩ i =
          some ((sortNames names).getD i "")) ∧
        ∀ i, getAppElf ⟨numApps, load (place ".data") data rest⟩ i =
            some (((sortNames names)[i]?.map elf).getD []) ↔ i < names.length) := by
  obtain ⟨o, hrun, h⟩ := assemble_generateAsm hchars hfiles hentry
  obtain ⟨data, hlink⟩ : ∃ data, o.link place ".data" = some data := h.link
  refine ⟨o, data, place ".data", hrun, hlink, h.symbol, sortNames_perm names,
    sortNames_pairwise names, fun hplaced => ?_⟩
  have htotal := h.getTotalApps_eq hlink hplaced rest
  rw [length_sortNames] at htotal
  refine ⟨htotal, h.getAppName_eq hlink hplaced rest, fun i => ⟨fun helf => ?_, fun hi => ?_⟩⟩
  · by_contra hge
    rw [getAppElf_past htotal (by omega)] at helf
    cases helf
  · have hi' : i < (sortNames names).length := by rwa [length_sortNames]
    rw [h.getAppElf_eq hlink hplaced rest hi', List.getElem?_eq_getElem hi']
    rfl

/-! ## An example -/

def sampleEntry : Object where
  current := ".text.entry"
  items _ := []
  exponent _ := 0
  labels _ := none
  globals := []

def sampleFiles (path : String) : Option (List UInt8) :=
  if path = s!"{elfDir}/sh" then some [127, 69] else
  if path = s!"{elfDir}/init" then some [127, 69, 76] else none

def samplePlace (_ : String) : ℕ := 0xffffffc080400000

def sampleElf (name : String) : List UInt8 := if name = "sh" then [127, 69] else [127, 69, 76]

theorem sampleEntry_afterEntry : AfterEntry sampleEntry := ⟨rfl, rfl, fun _ _ => rfl⟩

theorem sampleNames_chars : ∀ name ∈ ["sh", "init"], ∀ c ∈ name.toList, nameChar c = true := by
  have hall : (["sh", "init"].all fun name => name.toList.all nameChar) = true := by decide
  intro name hname c hc
  exact List.all_eq_true.mp (List.all_eq_true.mp hall name hname) c hc

theorem sampleNames_files :
    ∀ name ∈ ["sh", "init"], sampleFiles s!"{elfDir}/{name}" = some (sampleElf name) := by
  decide +kernel

theorem sample_sorted : sortNames ["sh", "init"] = ["init", "sh"] := by
  simp [sortNames, List.mergeSort]

/-- The section of the example has the alignment 8 and 85 bytes. -/
theorem sample_section :
    (assemble sampleFiles (writeAppAsms ["init", "sh"]) sampleEntry).bind (fun o =>
      (o.link samplePlace ".data").map fun data => (o.exponent ".data", data.length)) =
        some (3, 85) := by
  decide +kernel

theorem sample_placed {o : Object} {data : List UInt8}
    (hrun : assemble sampleFiles (generateAsm ["sh", "init"]) sampleEntry = some o)
    (hlink : o.link samplePlace ".data" = some data) : Placed samplePlace o data := by
  have hsection := sample_section
  rw [← sample_sorted, ← generateAsm, hrun, Option.bind_some, hlink, Option.map_some,
    Option.some.injEq, Prod.mk.injEq] at hsection
  obtain ⟨hexponent, hlength⟩ := hsection
  refine ⟨by decide, ?_, ?_⟩
  · rw [hexponent]
    decide
  · rw [hlength]
    decide

/-- The names and the files of two apps. -/
theorem apps_decoded_sample :
    ∃ o data numApps, assemble sampleFiles (generateAsm ["sh", "init"]) sampleEntry = some o ∧
      o.link samplePlace ".data" = some data ∧ o.symbol samplePlace "_num_apps" = some numApps ∧
      getTotalApps ⟨numApps, load (samplePlace ".data") data fun _ => 0⟩ = some 2 ∧
      getAppName ⟨numApps, load (samplePlace ".data") data fun _ => 0⟩ 0 = some "init" ∧
      getAppElf ⟨numApps, load (samplePlace ".data") data fun _ => 0⟩ 1 = some [127, 69] := by
  obtain ⟨o, data, numApps, hrun, hlink, hsymbol, -, -, hread⟩ :=
    apps_decoded sampleNames_chars sampleNames_files sampleEntry_afterEntry samplePlace fun _ => 0
  obtain ⟨htotal, hname, helf⟩ := hread (sample_placed hrun hlink)
  refine ⟨o, data, numApps, hrun, hlink, hsymbol, htotal, ?_, ?_⟩
  · rw [hname, sample_sorted]
    rfl
  · rw [(helf 1).mpr (by decide), sample_sorted]
    decide

/-- With two apps, there is no slice for the index 2. -/
theorem app_elf_past_end :
    ∃ o data numApps, assemble sampleFiles (generateAsm ["sh", "init"]) sampleEntry = some o ∧
      o.link samplePlace ".data" = some data ∧ o.symbol samplePlace "_num_apps" = some numApps ∧
      getTotalApps ⟨numApps, load (samplePlace ".data") data fun _ => 0⟩ = some 2 ∧
      getAppElf ⟨numApps, load (samplePlace ".data") data fun _ => 0⟩ 2 ≠ some [] := by
  obtain ⟨o, hrun, h⟩ :=
    assemble_generateAsm sampleNames_chars sampleNames_files sampleEntry_afterEntry
  obtain ⟨data, hlink⟩ : ∃ data, o.link samplePlace ".data" = some data := h.link
  have htotal := h.getTotalApps_eq hlink (sample_placed hrun hlink) fun _ => 0
  rw [length_sortNames] at htotal
  refine ⟨o, data, _, hrun, hlink, h.symbol, htotal, ?_⟩
  rw [getAppElf_past htotal (by decide)]
  simp

end RCoreKernel.Task.Apps
