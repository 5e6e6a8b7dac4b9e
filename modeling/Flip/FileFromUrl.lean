import Flip.CBlock

/-!
# The file behind an IPC address

The file name is the address without its `ipc://`. Its buffer has room for as
many pointers as the address has bytes, and the bytes copied are the ones
that are left, so only the shortest and the longest addresses are close to
the bounds.
-/

set_option autoImplicit false

namespace Flip.FileFromUrl
open Flip.CLib Flip.CBlock

structure UrlAlloc where
  tmpCtx : Bool
  fileName : Bool
  deriving DecidableEq

def UrlAlloc.good : UrlAlloc := ⟨true,true⟩

def prefixIpc : Buf := ascii "ipc://"

def charPointerSize : ℕ := 8

def getFileFromUrl (a : UrlAlloc) (url : CString) : Except CopyFault (Errno × Option Block) :=
  if a.tmpCtx = false then .ok (.enomem,none)
  else
    let remove := if url.memory.take prefixIpc.length = prefixIpc then prefixIpc else []
    let removeSize := intOfSize remove.length
    let urlSize := intOfSize url.strlen
    if a.fileName = false then .ok (.enomem,none)
    else do
      let kept ← intResult (urlSize-removeSize)
      let size ← intResult (kept+1)
      let fileName ← memcpy (charPointerSize*unsignedOfInt urlSize)
        (url.memory.drop remove.length) (sizeOfInt size)
      return (.eok,some fileName)

def removed (url : CString) : ℕ := if prefixIpc <+: url.bytes then prefixIpc.length else 0

def withoutPrefix (url : CString) : CString :=
  ⟨url.bytes.drop (removed url),fun h => url.nulFree (List.mem_of_mem_drop h)⟩

def ipcUrl (path : CString) : CString where
  bytes := prefixIpc++path.bytes
  nulFree := by
    rw [List.mem_append]
    rintro (h | h)
    · exact absurd h (by decide)
    · exact path.nulFree h

/-- The block copied ends with the address, fits in its buffer and is the
string wanted. -/
def CopiesPath (url : CString) : Prop :=
  ∃ block, getFileFromUrl .good url = .ok (.eok,some block) ∧
    block.size = charPointerSize*url.strlen ∧ block.bytes <:+ url.memory ∧
    block.Holds (withoutPrefix url)

/-- Not the empty address, and not the longest one without a prefix. -/
def Copyable (url : CString) : Prop :=
  url.bytes ≠ [] ∧ (url.strlen = 2^31-1 → prefixIpc <+: url.bytes)

instance (url : CString) : Decidable (Copyable url) :=
  inferInstanceAs (Decidable (_ ∧ _))

theorem take_scheme_iff (url : CString) :
    url.memory.take prefixIpc.length = prefixIpc ↔ prefixIpc <+: url.bytes := by
  have hnul : prefixIpc ≠ url.bytes++[0] := by
    intro h
    have hmem : (0 : Byte) ∈ prefixIpc := by simp [h]
    exact absurd hmem (by decide)
  rw [eq_comm, ← List.prefix_iff_eq_take, CString.memory, List.prefix_concat_iff]
  exact or_iff_right hnul

theorem remove_length (url : CString) :
    (if url.memory.take prefixIpc.length = prefixIpc then prefixIpc else []).length =
      removed url := by
  rw [removed, apply_ite List.length]
  simp only [take_scheme_iff, List.length_nil]

theorem removed_le (url : CString) : removed url ≤ url.strlen := by
  rw [removed]
  split_ifs with h
  · exact h.length_le
  · exact Nat.zero_le _

theorem without_prefix_memory (url : CString) :
    (withoutPrefix url).memory = url.memory.drop (removed url) := by
  have hle : removed url ≤ url.bytes.length := removed_le url
  rw [CString.memory, CString.memory, List.drop_append_of_le_length hle]
  rfl

theorem without_prefix_strlen (url : CString) :
    (withoutPrefix url).strlen = url.strlen-removed url := by
  simp [CString.strlen, withoutPrefix]

/-- The rest of the address is longer than any `int` counts. -/
def Overflows (url : CString) : Prop := url.strlen = 2^31-1 ∧ removed url = 0

instance (url : CString) : Decidable (Overflows url) := inferInstanceAs (Decidable (_ ∧ _))

theorem kept_result (url : CString) (h : url.strlen < 2^31) :
    intResult ((url.strlen : ℤ)-removed url) = .ok ((url.strlen-removed url : ℕ) : ℤ) := by
  have hle := removed_le url
  rw [int_result_ok _ (by rw [intMin]; omega) (by rw [intMax]; omega), Nat.cast_sub hle]

theorem size_overflow (url : CString) (h : Overflows url) :
    intResult (((url.strlen-removed url : ℕ) : ℤ)+1) = .error .intOverflow := by
  obtain ⟨hlen,hzero⟩ := h
  apply int_result_overflow
  rw [intMax]
  omega

theorem size_result (url : CString) (h : url.strlen < 2^31) (hover : ¬Overflows url) :
    intResult (((url.strlen-removed url : ℕ) : ℤ)+1) =
      .ok ((withoutPrefix url).memory.length : ℤ) := by
  have hle := removed_le url
  rw [memory_length, without_prefix_strlen, Nat.cast_succ]
  rw [Overflows] at hover
  apply int_result_ok
  · rw [intMin]
    omega
  · rw [intMax]
    omega

theorem file_steps (url : CString) (h : url.strlen < 2^31) :
    getFileFromUrl .good url = (do
      let size ← intResult (((url.strlen-removed url : ℕ) : ℤ)+1)
      let fileName ← memcpy (charPointerSize*url.strlen)
        (withoutPrefix url).memory (sizeOfInt size)
      return (.eok,some fileName)) := by
  have hremoved : intOfSize (removed url) = removed url :=
    int_of_size_small _ (lt_of_le_of_lt (removed_le url) h)
  have hcount : unsignedOfInt url.strlen = url.strlen := unsigned_of_int_nat_cast _ (by omega)
  rw [getFileFromUrl, if_neg (by decide)]
  dsimp only
  rw [if_neg (by decide), remove_length, hremoved, int_of_size_small _ h, hcount,
    bind_of_ok (kept_result url h), without_prefix_memory]

theorem file_overflow (url : CString) (h : url.strlen < 2^31) (hover : Overflows url) :
    getFileFromUrl .good url = .error .intOverflow := by
  rw [file_steps url h, bind_of_error (size_overflow url hover)]

theorem file_copy (url : CString) (h : url.strlen < 2^31) (hover : ¬Overflows url) :
    getFileFromUrl .good url = (do
      let fileName ← memcpy (charPointerSize*url.strlen) (withoutPrefix url).memory
        (withoutPrefix url).memory.length
      return (.eok,some fileName)) := by
  have hmemory : (withoutPrefix url).memory.length < 2^64 := by
    rw [memory_length, without_prefix_strlen]
    omega
  rw [file_steps url h, bind_of_ok (size_result url h hover), size_of_int_nat_cast _ hmemory]

theorem fits_iff (url : CString) :
    (withoutPrefix url).memory.length ≤ charPointerSize*url.strlen ↔ url.bytes ≠ [] := by
  rw [memory_length, without_prefix_strlen, charPointerSize, ← List.length_pos_iff]
  change _ ↔ 0 < url.strlen
  omega

theorem overflows_iff (url : CString) :
    ¬Overflows url ↔ (url.strlen = 2^31-1 → prefixIpc <+: url.bytes) := by
  have hzero : removed url = 0 ↔ ¬prefixIpc <+: url.bytes := by
    rw [removed]
    split_ifs with h
    · exact iff_of_false (by decide) (not_not.mpr h)
    · exact iff_of_true rfl h
  rw [Overflows, hzero, not_and, not_not]

theorem copies_path (url : CString) (h : url.strlen < 2^31) (hcopy : Copyable url) :
    CopiesPath url := by
  have hfits := (fits_iff url).mpr hcopy.1
  refine ⟨⟨_,_,hfits⟩,?_,rfl,?_,rfl⟩
  · rw [file_copy url h ((overflows_iff url).mpr hcopy.2), bind_of_ok (memcpy_rest _ _ hfits)]
    rfl
  · change (withoutPrefix url).memory <:+ url.memory
    rw [without_prefix_memory]
    exact List.drop_suffix _ _

theorem file_fault (url : CString) (h : url.strlen < 2^31) (hcopy : ¬Copyable url) :
    ∃ fault, getFileFromUrl .good url = .error fault := by
  by_cases hover : Overflows url
  · exact ⟨_,file_overflow url h hover⟩
  · have hempty : ¬url.bytes ≠ [] := fun hne => hcopy ⟨hne,(overflows_iff url).mp hover⟩
    have hsmall := not_le.mp (mt (fits_iff url).mp hempty)
    refine ⟨.targetOverrun,?_⟩
    rw [file_copy url h hover, bind_of_error (memcpy_overrun _ _ hsmall)]

theorem copies_path_iff (url : CString) (h : url.strlen < 2^31) :
    CopiesPath url ↔ Copyable url := by
  refine ⟨?_,copies_path url h⟩
  rintro ⟨block,hrun,-⟩
  by_contra hcopy
  obtain ⟨fault,hfault⟩ := file_fault url h hcopy
  rw [hfault] at hrun
  cases hrun

theorem ipc_url_scheme (path : CString) : prefixIpc <+: (ipcUrl path).bytes :=
  List.prefix_append _ _

theorem ipc_url_cut (path : CString) : withoutPrefix (ipcUrl path) = path := by
  have hremoved : removed (ipcUrl path) = prefixIpc.length := if_pos (ipc_url_scheme path)
  apply CString.ext
  change (prefixIpc++path.bytes).drop (removed (ipcUrl path)) = path.bytes
  rw [hremoved]
  exact List.drop_left

theorem ipc_url_copyable (path : CString) : Copyable (ipcUrl path) :=
  ⟨List.ne_nil_of_length_pos (Nat.lt_of_lt_of_le (by decide) (ipc_url_scheme path).length_le),
    fun _ => ipc_url_scheme path⟩

def ReturnsPath (path : CString) : Prop :=
  ∃ block, getFileFromUrl .good (ipcUrl path) = .ok (.eok,some block) ∧ block.Holds path

theorem returns_path (path : CString) (h : (ipcUrl path).strlen < 2^31) : ReturnsPath path := by
  obtain ⟨block,hrun,-,-,hholds⟩ := copies_path (ipcUrl path) h (ipc_url_copyable path)
  rw [ipc_url_cut] at hholds
  exact ⟨block,hrun,hholds⟩

/-- The copy stays inside both objects and gives the path exactly for the
addresses that are copyable, every address made from a path among them. -/
theorem stripped_exactly (url path : CString) (hurl : url.strlen < 2^31)
    (hpath : (ipcUrl path).strlen < 2^31) :
    (CopiesPath url ↔ Copyable url) ∧ ReturnsPath path :=
  ⟨copies_path_iff url hurl,returns_path path hpath⟩

def slash : CString := ⟨ascii "/",by decide⟩

theorem stripped_exactly_slash :
    (CopiesPath (ipcUrl slash) ↔ Copyable (ipcUrl slash)) ∧ ReturnsPath slash :=
  stripped_exactly (ipcUrl slash) slash (by decide) (by decide)

def emptyUrl : CString := tallocStrndup [] 0

/-- One byte is copied into a buffer of none. -/
theorem empty_url_overruns :
    getFileFromUrl .good emptyUrl = .error .targetOverrun ∧
      ¬∀ url : CString, url.strlen < 2^31 → CopiesPath url := by
  refine ⟨by decide,fun hall => ?_⟩
  obtain ⟨block,hrun,-⟩ := hall emptyUrl (by decide)
  rw [show getFileFromUrl .good emptyUrl = .error .targetOverrun by decide] at hrun
  cases hrun

end Flip.FileFromUrl
