import WeGoAll.Stun.Attributes

/-!
# Stun — Grammar

What a Binding success response is, over the bytes of a datagram and without a decoder.

* `Attributes bs as`: the bytes are these attributes, each with its type, its length, its value and
  the padding to a multiple of four bytes.
* `BindingSuccess`: a response to the request with a given transaction id.
* `Attributes.unique`: bytes are one list of attributes only.
* `Attributes.at_first`: where the attributes stand in a memory that holds the bytes.
-/

namespace Wga

structure StunAttribute where
  type : UInt16
  value : Bytes

/-- The bytes between a value of `n` bytes and the next multiple of four. -/
def padding (n : Nat) : Nat := (4 - n % 4) % 4

/-- The bytes are these attributes. -/
inductive Attributes : Bytes → List StunAttribute → Prop where
  | nil : Attributes [] []
  | cons {t₀ t₁ l₀ l₁ : UInt8} {value pad rest : Bytes} {as : List StunAttribute}
      (hlength : (uint16 l₀ l₁).toNat = value.length) (hpad : pad.length = padding value.length)
      (h : Attributes rest as) :
      Attributes ([t₀, t₁, l₀, l₁] ++ (value ++ (pad ++ rest))) (⟨uint16 t₀ t₁, value⟩ :: as)

namespace StunAttribute

/-- How many words of four bytes the attribute takes. -/
def words (a : StunAttribute) : Nat := 1 + (a.value.length + padding a.value.length) / 4

/-- The IPv4 address and port of an address attribute, those of a `XOR-MAPPED-ADDRESS` without the
cookie on them. -/
def ipv4 (a : StunAttribute) : Option Endpoint :=
  match a.value with
  | _ :: family :: p₀ :: p₁ :: a₀ :: a₁ :: a₂ :: a₃ :: _ =>
    if family = 0x01 then
      if a.type = ATTRIB_MAPPED_ADDRESS then some ⟨uint32 a₀ a₁ a₂ a₃, uint16 p₀ p₁⟩
      else some ⟨uint32 a₀ a₁ a₂ a₃ ^^^ COOKIE, uint16 p₀ p₁ ^^^ (COOKIE >>> 16).toUInt16⟩
    else none
  | _ => none

end StunAttribute

/-- `a` is the first attribute of an address, and `k` words precede it. -/
inductive FirstOf : List StunAttribute → Nat → StunAttribute → Prop where
  | head {a : StunAttribute} {as : List StunAttribute} (h : StunClient.IsAddress a.type) :
      FirstOf (a :: as) 0 a
  | tail {x a : StunAttribute} {as : List StunAttribute} {k : Nat}
      (h : ¬ StunClient.IsAddress x.type) (rest : FirstOf as k a) :
      FirstOf (x :: as) (x.words + k) a

/-- The datagram is a Binding success response to the request with this transaction id: the type
0x0101, the length of the attributes, the magic cookie, the transaction id and the attributes. -/
def BindingSuccess (id : RequestId) (datagram : Bytes) (as : List StunAttribute) : Prop :=
  ∃ l₀ l₁ body rest, datagram =
      [0x01, 0x01, l₀, l₁, 0x21, 0x12, 0xA4, 0x42] ++ (id.toList ++ (body ++ rest)) ∧
    (uint16 l₀ l₁).toNat = body.length ∧ Attributes body as

/-- The endpoint of the response. -/
def Prescribed (id : RequestId) (datagram : Bytes) (ep : Endpoint) : Prop :=
  ∃ as k a, BindingSuccess id datagram as ∧ FirstOf as k a ∧ a.ipv4 = some ep

/-! ### One reading only -/

/-- **Bytes are one list of attributes only.** -/
theorem Attributes.unique {bs : Bytes} {as as' : List StunAttribute} (h : Attributes bs as)
    (h' : Attributes bs as') : as = as' := by
  induction h generalizing as' with
  | nil =>
      generalize hbs : ([] : Bytes) = bs at h'
      cases h' with
      | nil => rfl
      | cons => cases hbs
  | @cons t₀ t₁ l₀ l₁ value pad rest as hlength hpad h ih =>
      generalize hbs : [t₀, t₁, l₀, l₁] ++ (value ++ (pad ++ rest)) = bs at h'
      cases h' with
      | nil => cases hbs
      | @cons _ _ _ _ value' pad' rest' as' hlength' hpad' h' =>
          obtain ⟨hhead, htail⟩ := List.append_inj hbs rfl
          cases hhead
          obtain ⟨rfl, hpadded⟩ := List.append_inj htail (hlength.symm.trans hlength')
          obtain ⟨-, rfl⟩ := List.append_inj hpadded (hpad.trans hpad'.symm)
          rw [ih h']

theorem BindingSuccess.unique {id : RequestId} {datagram : Bytes} {as as' : List StunAttribute}
    (h : BindingSuccess id datagram as) (h' : BindingSuccess id datagram as') : as = as' := by
  obtain ⟨l₀, l₁, body, rest, rfl, hlength, hbody⟩ := h
  obtain ⟨l₀', l₁', body', rest', heq, hlength', hbody'⟩ := h'
  obtain ⟨hhead, htail⟩ := List.append_inj heq rfl
  cases hhead
  obtain ⟨-, hrest⟩ := List.append_inj htail rfl
  obtain ⟨rfl, -⟩ := List.append_inj hrest (hlength.symm.trans hlength')
  exact hbody.unique hbody'

theorem FirstOf.unique {as : List StunAttribute} {j k : Nat} {a b : StunAttribute}
    (h : FirstOf as j a) (h' : FirstOf as k b) : a = b := by
  induction h generalizing k with
  | head ha =>
      cases h' with
      | head => rfl
      | tail hx => exact absurd ha hx
  | tail hx _ ih =>
      cases h' with
      | head ha => exact absurd ha hx
      | tail _ h' => exact ih h'

theorem FirstOf.address {as : List StunAttribute} {k : Nat} {a : StunAttribute}
    (h : FirstOf as k a) : StunClient.IsAddress a.type := by
  induction h with
  | head h => exact h
  | tail _ _ ih => exact ih

/-! ### Where the attributes stand -/

/-- The `n` bytes from `i` on. -/
def Memory.slice (m : Memory) (i n : Nat) : Bytes := (List.range' i n).map m

/-- The datagram of `size` bytes that was received last. -/
def Memory.datagram (m : Memory) (size : Nat) : Bytes := m.slice 0 size

namespace Memory

variable {m : Memory} {i n : Nat}

@[simp] theorem length_slice : (m.slice i n).length = n := by simp [slice]

theorem slice_cons {b : UInt8} {bs : Bytes} (h : m.slice i n = b :: bs) :
    m i = b ∧ m.slice (i + 1) bs.length = bs := by
  have hn := congrArg List.length h
  rw [length_slice, List.length_cons] at hn
  subst hn
  rw [slice, List.range'_succ, List.map_cons] at h
  exact List.cons.inj h

theorem slice_append {xs ys : Bytes} (h : m.slice i n = xs ++ ys) :
    m.slice i xs.length = xs ∧ m.slice (i + xs.length) ys.length = ys := by
  have hn := congrArg List.length h
  rw [length_slice, List.length_append] at hn
  subst hn
  rw [slice, ← List.range'_append_1, List.map_append] at h
  exact List.append_inj h (by simp)

end Memory

theorem StunAttribute.words_eq (a : StunAttribute) :
    4 * a.words = 4 + (a.value.length + padding a.value.length) := by
  rw [words, padding]
  omega

/-- The attribute stands at `i`. -/
structure StunAttribute.At (m : Memory) (i : Nat) (a : StunAttribute) : Prop where
  type : m.uint16 i = a.type
  length : StunClient.lengthAt m i = a.value.length
  value : m.slice (i + 4) a.value.length = a.value

/-- It has the endpoint that is decoded there. -/
theorem StunAttribute.At.ipv4 {m : Memory} {i : Nat} {a : StunAttribute} (h : a.At m i) :
    StunClient.ipv4At m i = a.ipv4 := by
  by_cases h8 : 8 ≤ a.value.length
  · obtain ⟨f, family, p₀, p₁, a₀, a₁, a₂, a₃, rest, hv⟩ : ∃ f family p₀ p₁ a₀ a₁ a₂ a₃ rest,
        a.value = f :: family :: p₀ :: p₁ :: a₀ :: a₁ :: a₂ :: a₃ :: rest := by
      match a.value, h8 with
      | f :: family :: p₀ :: p₁ :: a₀ :: a₁ :: a₂ :: a₃ :: rest, _ =>
        exact ⟨f, family, p₀, p₁, a₀, a₁, a₂, a₃, rest, rfl⟩
    have hvalue := h.value
    rw [hv] at hvalue
    obtain ⟨-, hvalue⟩ := Memory.slice_cons hvalue
    obtain ⟨hfamily, hvalue⟩ := Memory.slice_cons hvalue
    obtain ⟨hp₀, hvalue⟩ := Memory.slice_cons hvalue
    obtain ⟨hp₁, hvalue⟩ := Memory.slice_cons hvalue
    obtain ⟨ha₀, hvalue⟩ := Memory.slice_cons hvalue
    obtain ⟨ha₁, hvalue⟩ := Memory.slice_cons hvalue
    obtain ⟨ha₂, hvalue⟩ := Memory.slice_cons hvalue
    obtain ⟨ha₃, -⟩ := Memory.slice_cons hvalue
    have hport : m.uint16 (i + 6) = uint16 p₀ p₁ := congrArg₂ uint16 hp₀ hp₁
    have haddress : m.uint32 (i + 8) = uint32 a₀ a₁ a₂ a₃ := by
      rw [← ha₀, ← ha₁, ← ha₂, ← ha₃]
      rfl
    have hv4 : StunClient.familyAt m i = family := hfamily
    rw [hv] at h8
    rw [StunClient.ipv4At, StunAttribute.ipv4, hv, h.type, h.length, hv, hport, haddress, hv4]
    simp only [h8, and_true]
  · have hnone : a.ipv4 = none := by
      rw [StunAttribute.ipv4]
      split
      next hv =>
        rw [hv] at h8
        exact absurd (by simp) h8
      next => rfl
    rw [hnone, StunClient.ipv4At, h.length, if_neg fun h => h8 h.2]

/-- The first attribute of an address stands at the word it should. -/
theorem Attributes.at_first {m : Memory} {i k : Nat} {bs : Bytes} {as : List StunAttribute}
    {a : StunAttribute} (h : Attributes bs as) (hbs : m.slice i bs.length = bs)
    (ha : FirstOf as k a) : a.At m (i + 4 * k) ∧ 4 * (k + 1) ≤ bs.length := by
  induction h generalizing i k with
  | nil => cases ha
  | @cons t₀ t₁ l₀ l₁ value pad rest as hlength hpad h ih =>
      obtain ⟨hhead, htail⟩ := Memory.slice_append hbs
      obtain ⟨hvalue, hpadded⟩ := Memory.slice_append htail
      obtain ⟨-, hrest⟩ := Memory.slice_append hpadded
      obtain ⟨ht₀, htail⟩ := Memory.slice_cons hhead
      obtain ⟨ht₁, htail⟩ := Memory.slice_cons htail
      obtain ⟨hl₀, htail⟩ := Memory.slice_cons htail
      obtain ⟨hl₁, -⟩ := Memory.slice_cons htail
      cases ha with
      | head haddress =>
          refine ⟨⟨?_, ?_, ?_⟩, ?_⟩
          · exact congrArg₂ uint16 ht₀ ht₁
          · exact (congrArg UInt16.toNat (congrArg₂ uint16 hl₀ hl₁)).trans hlength
          · exact hvalue
          · simp
      | @tail _ _ _ k hx ha =>
          obtain ⟨hat, hle⟩ := ih hrest ha
          have hwords := StunAttribute.words_eq ⟨uint16 t₀ t₁, value⟩
          simp only [List.length_cons, List.length_nil, Nat.zero_add, Nat.reduceAdd] at hat hwords
          rw [hpad] at hat
          simp only [List.length_append, List.length_cons, List.length_nil]
          refine ⟨?_, by omega⟩
          convert hat using 1
          omega

/-- A response in the memory: its header is accepted, and its attributes follow. -/
theorem BindingSuccess.body {m : Memory} {size : Nat} {id : RequestId} {as : List StunAttribute}
    (h : BindingSuccess id (m.datagram size) as) : StunClient.Accepted m size ∧
      ∃ body, m.slice HEADER_SIZE body.length = body ∧
        StunClient.bodyLength m = body.length ∧ Attributes body as := by
  obtain ⟨l₀, l₁, body, rest, hbs, hlength, hbody⟩ := h
  have hsize := congrArg List.length hbs
  obtain ⟨hhead, htail⟩ := Memory.slice_append hbs
  obtain ⟨-, htail⟩ := Memory.slice_append htail
  obtain ⟨hslice, -⟩ := Memory.slice_append htail
  obtain ⟨h₀, hhead⟩ := Memory.slice_cons hhead
  obtain ⟨h₁, hhead⟩ := Memory.slice_cons hhead
  obtain ⟨h₂, hhead⟩ := Memory.slice_cons hhead
  obtain ⟨h₃, hhead⟩ := Memory.slice_cons hhead
  obtain ⟨h₄, hhead⟩ := Memory.slice_cons hhead
  obtain ⟨h₅, hhead⟩ := Memory.slice_cons hhead
  obtain ⟨h₆, hhead⟩ := Memory.slice_cons hhead
  obtain ⟨h₇, -⟩ := Memory.slice_cons hhead
  refine ⟨⟨?_, ?_, ?_⟩, body, ?_, ?_, hbody⟩
  · simp only [Memory.datagram, Memory.length_slice, List.length_append, List.length_cons,
      List.length_nil, List.Vector.toList_length] at hsize
    rw [HEADER_SIZE, hsize]
    omega
  · exact congrArg₂ uint16 h₀ h₁
  · have hcookie : m.uint32 4 = uint32 0x21 0x12 0xA4 0x42 := by
      rw [← h₄, ← h₅, ← h₆, ← h₇]
      rfl
    rw [hcookie]
    decide
  · rwa [List.Vector.toList_length] at hslice
  · exact (congrArg UInt16.toNat (congrArg₂ uint16 h₂ h₃)).trans hlength

end Wga
