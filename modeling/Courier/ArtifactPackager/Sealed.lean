import Courier.ArtifactPackager
import Courier.Library.Checks

/-!
# What a valid package says

A package is valid exactly if its manifest is signed, the signature is not old, and every file of the manifest is read
with its digest (`verify_isValid_iff`); members that the manifest does not list are not looked at.
-/

namespace Courier.Packager

open Calendar Json Receipts Text

/-! ### Members -/

section

variable {zf : Archive} {name : Str} {raw : Bytes}

theorem mem_of_read (h : zf.read name = some raw) :
  (name, raw) ∈ zf
  := by
  obtain ⟨before, after, heq, -⟩ := List.lookup_eq_some_iff.mp h
  rw [← List.mem_reverse, heq]
  simp

theorem read_concat (zf : Archive) (name name' : Str) (raw : Bytes) :
  Archive.read (zf ++ [(name, raw)]) name' = if name' = name then some raw else zf.read name'
  := by
  rw [Archive.read, List.reverse_concat, List.lookup_cons]
  by_cases h : name' = name
  · simp [h]
  · rw [if_neg h, beq_eq_false_iff_ne.mpr h, Archive.read]

theorem read_of_mem (hdistinct : zf.namelist.Nodup) (h : (name, raw) ∈ zf) :
  zf.read name = some raw
  := by
  have hreverse : (zf.reverse.map Prod.fst).Nodup := by
    rw [List.map_reverse, List.nodup_reverse]
    exact hdistinct
  exact (Dict.lookup_eq_some_iff hreverse).mpr (List.mem_reverse.mpr h)

end

theorem asDict_obj (d : Members) :
  asDict (.obj d) = .ok d
  := rfl

theorem loadMember_dumpsIndented {v : Json} (h : Good v) :
  loadMember (Bytes.ofAscii v.dumpsIndented) = .ok v
  := by
  rw [loadMember, loads_decode_dumpsIndented h]

theorem good_loadMember {raw : Bytes} {v : Json} (h : loadMember raw = .ok v) :
  Good v
  := by
  unfold loadMember at h
  split at h
  · next w hw =>
    cases h
    obtain ⟨s, hs, hloads⟩ := Option.bind_eq_some_iff.mp hw
    exact good_of_loads (decoded_of_decode hs) hloads
  · cases h

structure Opens (zf : Archive) (manifestData filesMap : Members) (receipt : SignedReceipt) : Prop where
  manifest : ∃ raw, zf.read manifestName = some raw ∧ loadMember raw = .ok (.obj manifestData)
  files : asDict ((manifestData.lookup (text "files")).getD (.obj [])) = .ok filesMap
  receipt : ∃ raw sigDict, zf.read signatureName = some raw ∧ loadMember raw = .ok (.obj sigDict) ∧
    SignedReceipt.fromDict sigDict = .ok receipt

theorem Opens.unique {zf : Archive} {d d' filesMap filesMap' : Members} {receipt receipt' : SignedReceipt}
    (h : Opens zf d filesMap receipt) (h' : Opens zf d' filesMap' receipt') :
  d = d' ∧ filesMap = filesMap' ∧ receipt = receipt'
  := by
  obtain ⟨⟨raw, hraw, hload⟩, hfiles, sigRaw, sigDict, hsig, hsigLoad, hreceipt⟩ := h
  obtain ⟨⟨raw', hraw', hload'⟩, hfiles', sigRaw', sigDict', hsig', hsigLoad', hreceipt'⟩ := h'
  cases hraw.symm.trans hraw'
  cases hload.symm.trans hload'
  cases hfiles.symm.trans hfiles'
  cases hsig.symm.trans hsig'
  cases hsigLoad.symm.trans hsigLoad'
  cases hreceipt.symm.trans hreceipt'
  exact ⟨rfl, rfl, rfl⟩

/-! ### What is checked -/

section

variable [Packing] {signer : ReceiptSigner} {packager : ArtifactPackager} {zf : Archive} {path : Str}
  {key : Option Str} {now : DateTime} {manifestData filesMap : Members} {receipt : SignedReceipt}

def Found (zf : Archive) (entry : Str × Json) : Prop :=
  ∃ raw, zf.read entry.1 = some raw ∧ Json.str (Packing.sha256 raw) = entry.2

theorem foldl_checkFile (zf : Archive) (filesMap : Members) (acc : Nat × List Str) :
  ((filesMap.foldl (checkFile zf) acc).2 = [] ↔ acc.2 = [] ∧ ∀ entry ∈ filesMap, Found zf entry) ∧
    ((filesMap.foldl (checkFile zf) acc).2 = [] →
      (filesMap.foldl (checkFile zf) acc).1 = acc.1 + filesMap.length)
  := by
  induction filesMap generalizing acc with
  | nil => simp
  | cons entry filesMap ih =>
    obtain ⟨hih, hcount⟩ := ih (checkFile zf acc entry)
    have hstep : ((checkFile zf acc entry).2 = [] ↔ acc.2 = [] ∧ Found zf entry) ∧
        ((checkFile zf acc entry).2 = [] → (checkFile zf acc entry).1 = acc.1 + 1) := by
      unfold checkFile Found
      cases hread : zf.read entry.1 with
      | none => simp
      | some raw =>
        by_cases hdigest : Json.str (Packing.sha256 raw) = entry.2
        · simp [hdigest]
        · simp [hdigest]
    rw [List.foldl_cons]
    refine ⟨?_, fun hnone => ?_⟩
    · rw [hih, hstep.1, List.forall_mem_cons, and_assoc]
    · rw [hcount hnone, hstep.2 (hih.mp hnone).1, List.length_cons]
      omega

structure Intact (signer : ReceiptSigner) (zf : Archive) (now : DateTime) (manifestData filesMap : Members)
    (receipt : SignedReceipt) : Prop where
  safe : ∀ name ∈ zf.namelist, isSafeRelPath name = true
  opens : Opens zf manifestData filesMap receipt
  payload : receipt.payload = .obj manifestData
  signed : signer.verify receipt now = .ok ⟨true, .valid⟩
  found : ∀ entry ∈ filesMap, Found zf entry

def validReport (manifestData filesMap : Members) : VerificationReport :=
  ⟨true, get manifestData (text "item_id"), filesMap.length, []⟩

theorem verify_of_intact (h : Intact (packager.activeSigner key) zf now manifestData filesMap receipt) :
  packager.verify path (.archive zf) key now = validReport manifestData filesMap
  := by
  obtain ⟨hsafe, ⟨⟨manifestRaw, hmanifest, hload⟩, hfiles, sigRaw, sigDict, hsig, hsigLoad, hreceipt⟩,
    hpayload, hsigned, hfound⟩ := h
  obtain ⟨herrors, hcount⟩ := foldl_checkFile zf filesMap (0, [])
  have hnone := herrors.mpr ⟨rfl, hfound⟩
  have hunsafe : (zf.namelist.filter fun name => !isSafeRelPath name) = [] := by
    rw [List.filter_eq_nil_iff]
    intro name hname
    simp [hsafe name hname]
  have hchecked : verifyManifest (packager.activeSigner key) zf manifestRaw sigRaw now =
      .ok (validReport manifestData filesMap) := by
    simp only [verifyManifest, hload, hsigLoad, asDict_obj, hreceipt, hfiles, hsigned, hpayload, ne_eq,
      not_true_eq_false, if_false, Bool.not_true, Bool.false_eq_true, List.append_nil, bind, Except.bind,
      pure, Except.pure, hnone, hcount hnone, List.isEmpty_nil, Nat.zero_add, validReport]
  simp only [ArtifactPackager.verify, hunsafe, ne_eq, not_true_eq_false, if_false, hmanifest, hsig, hchecked]

theorem intact_of_isValid (h : (packager.verify path (.archive zf) key now).isValid = true) :
  ∃ manifestData filesMap receipt, Intact (packager.activeSigner key) zf now manifestData filesMap receipt
  := by
  unfold ArtifactPackager.verify at h
  dsimp only at h
  split_ifs at h with hunsafe
  · have hsafe : ∀ name ∈ zf.namelist, isSafeRelPath name = true := by
      intro name hname
      have hnot := List.filter_eq_nil_iff.mp (not_not.mp hunsafe) name hname
      simpa using hnot
    split at h
    · next manifestRaw sigRaw hmanifest hsig =>
      split at h
      · next report hreport =>
        unfold verifyManifest at hreport
        simp only [Except.bind_eq_ok] at hreport
        obtain ⟨manifestValue, hload, sigValue, hsigLoad, manifestData, hdict, sigDict, hsigDict, receipt,
          hreceipt, vRes, hverify, filesMap, hfiles, hresult⟩ := hreport
        cases hresult
        have hobj : ∀ {v : Json} {d : Members}, asDict v = .ok d → v = .obj d := by
          intro v d hv
          cases v <;> cases hv
          rfl
        rw [hobj hdict] at hload
        rw [hobj hsigDict] at hsigLoad
        have hnone := List.isEmpty_iff.mp h
        obtain ⟨hearly, hfound⟩ := (foldl_checkFile zf filesMap _).1.mp hnone
        obtain ⟨hmismatch, hrefused⟩ := List.append_eq_nil_iff.mp hearly
        have hpayload : receipt.payload = .obj manifestData := by
          by_contra hne
          rw [hobj hdict, if_pos hne] at hmismatch
          cases hmismatch
        have hvalid : vRes.isValid = true := by
          by_contra hinvalid
          simp [hinvalid] at hrefused
        refine ⟨manifestData, filesMap, receipt, hsafe, ⟨⟨_, hmanifest, hload⟩, hfiles, _, _, hsig, hsigLoad,
          hreceipt⟩, hpayload, ?_, hfound⟩
        rw [hverify, (isValid_iff hverify).mp hvalid]
      · cases h
    · cases h

/-- What is assumed of the surroundings: times are read as they are written, digests are ASCII, and no two
contents have one digest. -/
structure Faithful [Packing] : Prop where
  format : FormatOnly
  stamps : ∀ t, Surroundings.strptime (Calendar.format t) = some t.floor
  hmac_ascii : ∀ secret s, ∀ c ∈ Surroundings.hmac secret s, c < 128
  sha256_ascii : ∀ raw, ∀ c ∈ Packing.sha256 raw, c < 128
  injective : Function.Injective Packing.sha256

variable {tree : Tree} {itemId outputPath : Str} {metadata : Members} {createdAt signedAt : DateTime}
  {d : Members}

theorem good_filesMap (hf : Faithful) (hnames : ∀ f ∈ tree.files, Encodable f.rel) :
  Good (.obj tree.filesMap)
  := by
  apply good_members
  intro q hq
  obtain ⟨f, hfile, rfl⟩ := List.mem_map.mp hq
  exact ⟨⟨tree.texts f hfile, hasPair_of_encodable (hnames f hfile)⟩,
    good_str (plainText_of_ascii (hf.sha256_ascii f.content))⟩

theorem good_manifest (createdAt : DateTime) (hf : Faithful) (hnames : ∀ f ∈ tree.files, Encodable f.rel) (hitem : PlainText itemId)
    (hmeta : Good (.obj metadata)) :
  Good (.obj (manifest tree itemId metadata createdAt))
  := by
  apply good_obj
  · rfl
  · intro q hq
    simp only [manifest, List.mem_cons, List.not_mem_nil, or_false] at hq
    rcases hq with rfl | rfl | rfl | rfl
    · exact ⟨(by decide : PlainText (text "created_at")), good_str (plainText_format createdAt)⟩
    · exact ⟨(by decide : PlainText (text "files")), good_filesMap hf hnames⟩
    · exact ⟨(by decide : PlainText (text "item_id")), good_str hitem⟩
    · exact ⟨(by decide : PlainText (text "metadata")), hmeta⟩

theorem ascii_signatureOf (hf : Faithful) (signer : ReceiptSigner) (payload : Json) (at' : Str) :
  ∀ c ∈ signer.signatureOf payload at', c < 128
  := by
  intro c hc
  rcases List.mem_append.mp hc with hc | hc
  · exact (by decide : ∀ c ∈ text "hmac-sha256:", c < 128) c hc
  · exact hf.hmac_ascii _ _ c hc

theorem good_toDict (hf : Faithful) (hd : Good (.obj d)) :
  Good (.obj (packager.signer.sign (.obj d) signedAt).toDict)
  := by
  apply good_obj
  · rfl
  · intro q hq
    simp only [SignedReceipt.toDict, List.mem_cons, List.not_mem_nil, or_false] at hq
    rcases hq with rfl | rfl | rfl | rfl
    · exact ⟨(by decide : PlainText (text "key_id")), rfl, trivial⟩
    · exact ⟨(by decide : PlainText (text "payload")), hd⟩
    · exact ⟨(by decide : PlainText (text "signature")),
        good_str (plainText_of_ascii (ascii_signatureOf hf _ _ _))⟩
    · exact ⟨(by decide : PlainText (text "signed_at")), good_str (plainText_format signedAt)⟩

theorem read_archive (packager : ArtifactPackager) (tree : Tree) (d : Members) (signedAt : DateTime)
    (name : Str) :
  (packager.archive tree d signedAt).read name =
    if name = signatureName then
      some (Bytes.ofAscii (dumpsIndented (.obj (packager.signer.sign (.obj d) signedAt).toDict)))
    else if name = manifestName then some (Bytes.ofAscii (dumpsIndented (.obj d)))
    else Archive.read (tree.files.map fun f => (f.rel, f.stored)) name
  := by
  have hsplit : packager.archive tree d signedAt =
      ((tree.files.map fun f => (f.rel, f.stored)) ++ [(manifestName, Bytes.ofAscii (dumpsIndented (.obj d)))]) ++
        [(signatureName,
          Bytes.ofAscii (dumpsIndented (.obj (packager.signer.sign (.obj d) signedAt).toDict)))] := by
    rw [ArtifactPackager.archive, List.append_assoc]
    rfl
  rw [hsplit, read_concat, read_concat]

theorem opens_archive (packager : ArtifactPackager) (signedAt : DateTime) (hf : Faithful)
    (hgood : Good (.obj (manifest tree itemId metadata createdAt))) :
  Opens (packager.archive tree (manifest tree itemId metadata createdAt) signedAt)
    (manifest tree itemId metadata createdAt) tree.filesMap
    (packager.signer.sign (.obj (manifest tree itemId metadata createdAt)) signedAt)
  where
  manifest := by
    refine ⟨_, ?_, loadMember_dumpsIndented hgood⟩
    rw [read_archive, if_neg (by decide), if_pos rfl]
  files := rfl
  receipt := by
    refine ⟨_, _, ?_, loadMember_dumpsIndented (good_toDict hf hgood), rfl⟩
    rw [read_archive, if_pos rfl]

/-- A file that is named like the manifest or the signature is read as these, and any other as its digest was taken. -/
def ReadBack (packager : ArtifactPackager) (tree : Tree) (d : Members) (signedAt : DateTime) : Prop :=
  ∀ f ∈ tree.files,
    (f.rel = manifestName → f.content = Bytes.ofAscii (dumpsIndented (.obj d))) ∧
    (f.rel = signatureName → f.content =
      Bytes.ofAscii (dumpsIndented (.obj (packager.signer.sign (.obj d) signedAt).toDict))) ∧
    (¬ Reserved f.rel → f.stored = f.content)

theorem found_iff (hf : Faithful) :
  (∀ entry ∈ tree.filesMap, Found (packager.archive tree d signedAt) entry) ↔
    ReadBack packager tree d signedAt
  := by
  have hkeys : ((tree.files.map fun f => (f.rel, Json.str (Packing.sha256 f.content))).map Prod.fst).Nodup := by
    rw [List.map_map]
    exact tree.distinct
  have hentries : (∀ entry ∈ tree.filesMap, Found (packager.archive tree d signedAt) entry) ↔
      ∀ f ∈ tree.files, (packager.archive tree d signedAt).read f.rel = some f.content := by
    have hfound : ∀ f : SourceFile,
        Found (packager.archive tree d signedAt) (f.rel, .str (Packing.sha256 f.content)) ↔
          (packager.archive tree d signedAt).read f.rel = some f.content := by
      intro f
      constructor
      · rintro ⟨raw, hraw, hdigest⟩
        rw [hraw, hf.injective (Json.str.inj hdigest)]
      · exact fun hread => ⟨f.content, hread, rfl⟩
    simp only [Tree.filesMap, (perm_members hkeys).mem_iff, List.forall_mem_map, hfound]
  rw [hentries]
  apply forall₂_congr
  intro f hfile
  rw [read_archive]
  by_cases hsignature : f.rel = signatureName
  · have hmanifest : f.rel ≠ manifestName := by
      rw [hsignature]
      decide
    simp [hsignature, Reserved, hsignature ▸ hmanifest, eq_comm]
  · rw [if_neg hsignature]
    by_cases hmanifest : f.rel = manifestName
    · have hne : manifestName ≠ signatureName := by decide
      simp [hmanifest, Reserved, hne, eq_comm]
    · have hstored : Archive.read (tree.files.map fun f => (f.rel, f.stored)) f.rel = some f.stored := by
        apply read_of_mem
        · rw [Archive.namelist, List.map_map]
          exact tree.distinct
        · exact List.mem_map.mpr ⟨f, hfile, rfl⟩
      rw [if_neg hmanifest, hstored]
      simp [hsignature, hmanifest, Reserved]

theorem signed_iff (packager : ArtifactPackager) (d : Members) (hf : Faithful)
    (hlater : signedAt.instant ≤ now.instant) :
  packager.signer.verify (packager.signer.sign (.obj d) signedAt) now = .ok ⟨true, .valid⟩ ↔
    now.instant ≤ signedAt.floor.instant + 300000000
  := by
  have hfloor : signedAt.floor.instant ≤ signedAt.instant := (DateTime.instant_bounds signedAt).1
  rw [verify_valid_iff]
  constructor
  · rintro ⟨s, t, hs, ht, hwithin, -⟩
    obtain rfl := Json.str.inj hs
    rw [hf.stamps] at ht
    cases ht
    exact hwithin.1
  · intro hfresh
    refine ⟨format signedAt, signedAt.floor, rfl, hf.stamps signedAt, ⟨hfresh, ?_⟩, ?_, rfl⟩
    · omega
    · exact ascii_signatureOf hf _ _ _

theorem pack_eq {summary : PackageSummary} {given : Option Members}
    (h : packager.pack tree outputPath itemId given createdAt signedAt = .ok (zf, summary)) :
  (∀ f ∈ tree.files, isSafeRelPath f.rel = true ∧ Encodable f.rel) ∧
    zf = packager.archive tree (manifest tree itemId (given.getD []) createdAt) signedAt
  := by
  unfold ArtifactPackager.pack at h
  split_ifs at h with hsafe hnames
  · cases h
    exact ⟨fun f hfile => ⟨hsafe f hfile, hnames f hfile⟩, rfl⟩

omit [Packing] in
theorem activeSigner_self (hkey : key = none ∨ key = some packager.secretKey) :
  packager.activeSigner key = packager.signer
  := by
  rcases hkey with rfl | rfl
  · rfl
  · cases hsecret : packager.secretKey with
    | nil => rfl
    | cons c s =>
      rw [ArtifactPackager.signer, hsecret]
      rfl

theorem verify_pack_iff (hf : Faithful) {summary : PackageSummary} {given : Option Members}
    (hitem : PlainText itemId) (hmeta : Good (.obj (given.getD [])))
    (hpack : packager.pack tree outputPath itemId given createdAt signedAt = .ok (zf, summary))
    (hkey : key = none ∨ key = some packager.secretKey) (hlater : signedAt.instant ≤ now.instant) :
  packager.verify path (.archive zf) key now = ⟨true, .str itemId, tree.files.length, []⟩ ↔
    now.instant ≤ signedAt.floor.instant + 300000000 ∧
      ReadBack packager tree (manifest tree itemId (given.getD []) createdAt) signedAt
  := by
  obtain ⟨hchecked, rfl⟩ := pack_eq hpack
  have hgood := good_manifest createdAt hf (fun f hfile => (hchecked f hfile).2) hitem hmeta
  have hopens := opens_archive packager signedAt hf hgood
  have hsafe : ∀ name ∈ (packager.archive tree (manifest tree itemId (given.getD []) createdAt)
      signedAt).namelist, isSafeRelPath name = true := by
    intro name hname
    simp only [Archive.namelist, ArtifactPackager.archive, List.map_append, List.map_map, List.mem_append,
      List.mem_map, List.map_cons, List.map_nil, List.mem_cons, List.not_mem_nil, or_false] at hname
    rcases hname with ⟨f, hfile, rfl⟩ | rfl | rfl
    · exact (hchecked f hfile).1
    · decide
    · decide
  have hlength : tree.filesMap.length = tree.files.length := by
    rw [Tree.filesMap, (perm_members (by rw [List.map_map]; exact tree.distinct)).length_eq, List.length_map]
  have hreport : validReport (manifest tree itemId (given.getD []) createdAt) tree.filesMap =
      ⟨true, .str itemId, tree.files.length, []⟩ := by
    rw [validReport, hlength]
    rfl
  rw [← signed_iff packager (manifest tree itemId (given.getD []) createdAt) hf hlater,
    ← found_iff hf]
  constructor
  · intro hvalid
    obtain ⟨d, filesMap, receipt, hintact⟩ := intact_of_isValid (congrArg VerificationReport.isValid hvalid)
    obtain ⟨rfl, rfl, rfl⟩ := hopens.unique hintact.opens
    rw [activeSigner_self hkey] at hintact
    exact ⟨hintact.signed, hintact.found⟩
  · rintro ⟨hsigned, hfound⟩
    rw [← hreport]
    apply verify_of_intact
    rw [activeSigner_self hkey]
    exact ⟨hsafe, hopens, rfl, hsigned, hfound⟩

/-! ### What the manifest says of the members -/

def others (zf : Archive) : Archive :=
  zf.filter fun m => ¬ Reserved m.1

def Listed (zf : Archive) (filesMap : Members) : Prop :=
  ((others zf).map fun m => (m.1, Json.str (Packing.sha256 m.2))).Perm filesMap

/-- The members apart from the manifest and the signature are listed, each once, and these two are not. -/
structure Exact (zf : Archive) (filesMap : Members) : Prop where
  listed : ∀ m ∈ zf, Reserved m.1 ∨ m.1 ∈ filesMap.map Prod.fst
  distinct : (others zf).namelist.Nodup
  apart : ∀ name ∈ filesMap.map Prod.fst, ¬ Reserved name

section

omit [Packing]

theorem mem_others {m : Str × Bytes} :
  m ∈ others zf ↔ m ∈ zf ∧ ¬ Reserved m.1
  := by
  simp [others]

theorem nodup_filesMap (h : Opens zf manifestData filesMap receipt) :
  (filesMap.map Prod.fst).Nodup
  := by
  obtain ⟨⟨raw, -, hload⟩, hfiles, -⟩ := h
  have hgood := good_loadMember hload
  apply nodup_of_sortedKeys
  cases hlookup : manifestData.lookup (text "files") with
  | none =>
    rw [hlookup] at hfiles
    cases hfiles
    rfl
  | some v =>
    rw [hlookup] at hfiles
    have hwf := hgood.1
    rw [Json.wf, Bool.and_eq_true] at hwf
    have hv := wf_of_lookup hwf.2 hlookup
    cases v with
    | obj d =>
      cases hfiles
      rw [Json.wf, Bool.and_eq_true] at hv
      exact hv.1
    | _ => cases hfiles

end

theorem listed_iff_exact (h : Intact signer zf now manifestData filesMap receipt) :
  Listed zf filesMap ↔ Exact zf filesMap
  := by
  have hkeys := nodup_filesMap h.opens
  have hnames : ((others zf).map fun m => (m.1, Json.str (Packing.sha256 m.2))).map Prod.fst =
      (others zf).namelist := by
    rw [List.map_map]
    rfl
  constructor
  · intro hlisted
    have hperm : (others zf).namelist.Perm (filesMap.map Prod.fst) := by
      rw [← hnames]
      exact hlisted.map Prod.fst
    refine ⟨?_, hperm.nodup_iff.mpr hkeys, ?_⟩
    · intro m hm
      by_cases hreserved : Reserved m.1
      · exact .inl hreserved
      · exact .inr (hperm.mem_iff.mp (List.mem_map_of_mem (mem_others.mpr ⟨hm, hreserved⟩)))
    · intro name hname
      obtain ⟨m, hm, rfl⟩ := List.mem_map.mp (hperm.mem_iff.mpr hname)
      exact (mem_others.mp hm).2
  · intro hexact
    have hdigests : ((others zf).map fun m => (m.1, Json.str (Packing.sha256 m.2))).Nodup :=
      List.Nodup.of_map Prod.fst (hnames ▸ hexact.distinct)
    rw [Listed, List.perm_ext_iff_of_nodup hdigests hkeys.of_map]
    have hunique : ∀ m ∈ others zf, ∀ raw, zf.read m.1 = some raw → raw = m.2 := by
      intro m hm raw hread
      have hother : (m.1, raw) ∈ others zf := mem_others.mpr ⟨mem_of_read hread, (mem_others.mp hm).2⟩
      exact congrArg Prod.snd (List.inj_on_of_nodup_map hexact.distinct hother hm rfl)
    intro entry
    constructor
    · intro hentry
      obtain ⟨m, hm, rfl⟩ := List.mem_map.mp hentry
      obtain ⟨hmem, hother⟩ := mem_others.mp hm
      obtain ⟨listed, hlisted, hname⟩ := List.mem_map.mp ((hexact.listed m hmem).resolve_left hother)
      obtain ⟨raw, hread, hdigest⟩ := h.found listed hlisted
      rw [hname] at hread
      rw [hunique m hm raw hread] at hdigest
      have hsame : listed = (m.1, .str (Packing.sha256 m.2)) := Prod.ext hname hdigest.symm
      exact hsame ▸ hlisted
    · intro hentry
      obtain ⟨raw, hread, hdigest⟩ := h.found entry hentry
      have hm := mem_others.mpr ⟨mem_of_read hread, hexact.apart _ (List.mem_map_of_mem hentry)⟩
      exact List.mem_map.mpr ⟨_, hm, Prod.ext rfl hdigest⟩

def NotForged (signer : ReceiptSigner) (signed : List (Members × DateTime)) (zf : Archive) : Prop :=
  ∀ manifestData filesMap receipt, Opens zf manifestData filesMap receipt →
    ∀ s, receipt.signedAt = .str s → receipt.signature = signer.signatureOf receipt.payload s →
      ∃ p ∈ signed, message receipt.payload s = message (.obj p.1) (format p.2)

theorem signed_of_intact (hf : Faithful) {signed : List (Members × DateTime)}
    (hsigned : ∀ p ∈ signed, Good (.obj p.1)) (hunforged : NotForged signer signed zf)
    (h : Intact signer zf now manifestData filesMap receipt) :
  ∃ p ∈ signed, p.1 = manifestData
  := by
  obtain ⟨raw, -, hload⟩ := h.opens.manifest
  obtain ⟨s, t, hs, ht, -, -, hsignature⟩ := verify_valid_iff.mp h.signed
  obtain ⟨p, hp, hmessage⟩ := hunforged _ _ _ h.opens s hs hsignature
  rw [h.payload] at hmessage
  have hsame := message_injective (hf.format _ _ ht) (brace_notMem_format p.2) (good_loadMember hload)
    (hsigned p hp) hmessage
  exact ⟨p, hp, hsame.2.symm⟩

theorem perm_iff_exact (hf : Faithful) (h : Intact signer zf now manifestData tree.filesMap receipt) :
  (others zf).Perm (tree.files.map fun f => (f.rel, f.content)) ↔ Exact zf tree.filesMap
  := by
  have hdigest : Function.Injective fun m : Str × Bytes => (m.1, Json.str (Packing.sha256 m.2)) := by
    intro a b hab
    simp only [Prod.mk.injEq, Json.str.injEq] at hab
    exact Prod.ext hab.1 (hf.injective hab.2)
  have hfiles : tree.filesMap.Perm
      ((tree.files.map fun f => (f.rel, f.content)).map fun m => (m.1, Json.str (Packing.sha256 m.2))) := by
    rw [List.map_map]
    apply perm_members
    rw [List.map_map]
    exact tree.distinct
  rw [← listed_iff_exact h, Listed, ← List.map_perm_map_iff hdigest]
  exact ⟨fun hperm => hperm.trans hfiles.symm, fun hperm => hperm.trans hfiles⟩

/-- A package is verified exactly if it is no older than three hundred seconds and its files are read back; a valid
archive has the files of a signed manifest exactly if the manifest lists them all, each once. -/
theorem sealed_iff (hf : Faithful) :
  (∀ (packager : ArtifactPackager) tree outputPath itemId given createdAt signedAt zf summary path key now,
      PlainText itemId → Good (.obj (given.getD [])) →
      packager.pack tree outputPath itemId given createdAt signedAt = .ok (zf, summary) →
      key = none ∨ key = some packager.secretKey → signedAt.instant ≤ now.instant →
      (packager.verify path (.archive zf) key now = ⟨true, .str itemId, tree.files.length, []⟩ ↔
        now.instant ≤ signedAt.floor.instant + 300000000 ∧
          ReadBack packager tree (manifest tree itemId (given.getD []) createdAt) signedAt)) ∧
  (∀ (packager : ArtifactPackager) zf path key now (signed : List (Members × DateTime)),
      (∀ p ∈ signed, Good (.obj p.1)) → NotForged (packager.activeSigner key) signed zf →
      (packager.verify path (.archive zf) key now).isValid = true →
      ∃ manifestData filesMap receipt, Opens zf manifestData filesMap receipt ∧
        ((∃ p ∈ signed, p.1 = manifestData ∧ Listed zf filesMap) ↔ Exact zf filesMap)) ∧
  ∀ (packager : ArtifactPackager) tree outputPath itemId given createdAt signedAt zf₀ summary zf path key now,
      PlainText itemId → Good (.obj (given.getD [])) →
      packager.pack tree outputPath itemId given createdAt signedAt = .ok (zf₀, summary) →
      zf.read manifestName = zf₀.read manifestName →
      (packager.verify path (.archive zf) key now).isValid = true →
      ((others zf).Perm (tree.files.map fun f => (f.rel, f.content)) ↔ Exact zf tree.filesMap)
  := by
  refine ⟨?_, ?_, ?_⟩
  · intro packager tree outputPath itemId given createdAt signedAt zf summary path key now hitem hmeta hpack hkey
      hlater
    exact verify_pack_iff hf hitem hmeta hpack hkey hlater
  · intro packager zf path key now signed hsigned hunforged hvalid
    obtain ⟨manifestData, filesMap, receipt, hintact⟩ := intact_of_isValid hvalid
    obtain ⟨p, hp, hmanifest⟩ := signed_of_intact hf hsigned hunforged hintact
    refine ⟨manifestData, filesMap, receipt, hintact.opens, ?_⟩
    rw [← listed_iff_exact hintact]
    exact ⟨fun ⟨_, _, _, hlisted⟩ => hlisted, fun hlisted => ⟨p, hp, hmanifest, hlisted⟩⟩
  · intro packager tree outputPath itemId given createdAt signedAt zf₀ summary zf path key now hitem hmeta hpack
      hsame hvalid
    obtain ⟨hchecked, rfl⟩ := pack_eq hpack
    have hgood := good_manifest createdAt hf (fun f hfile => (hchecked f hfile).2) hitem hmeta
    obtain ⟨raw, hraw, hload⟩ := (opens_archive packager signedAt hf hgood).manifest
    obtain ⟨manifestData, filesMap, receipt, hintact⟩ := intact_of_isValid hvalid
    obtain ⟨raw', hraw', hload'⟩ := hintact.opens.manifest
    -- The manifest is that of the tree, and so are the files that it lists.
    cases hraw'.symm.trans (hsame.trans hraw)
    cases hload'.symm.trans hload
    have hfiles := hintact.opens.files
    cases hfiles
    exact perm_iff_exact hf hintact

end

/-! ### A packed directory -/

local instance packingSealed : Packing := Packing.plain

theorem faithful_plain :
  Faithful
  where
  format := formatOnly_plain
  stamps t := by
    show (parse (format t)).filter _ = _
    rw [parse_format, Option.filter_some, if_pos]
    exact decide_eq_true (by simp only [Calendar.format, DateTime.floor])
  hmac_ascii secret s c hc := by
    have hdigit := isDigit_of_mem_natDecimal hc
    simp only [isDigit, Bool.and_eq_true, decide_eq_true_eq] at hdigit
    omega
  sha256_ascii raw c hc := by
    have hhex : ∀ n < 16, hexDigit n < 128 := by decide
    obtain ⟨b, -, hc⟩ := List.mem_flatMap.mp hc
    have hb := b.toNat_lt
    simp only [List.mem_cons, List.not_mem_nil, or_false] at hc
    rcases hc with rfl | rfl
    · exact hhex _ (by omega)
    · exact hhex _ (by omega)
  injective := by
    have hhex : ∀ m < 16, ∀ n < 16, hexDigit m = hexDigit n → m = n := by decide
    intro a
    induction a with
    | nil =>
      rintro (_ | ⟨b, t⟩) h
      · rfl
      · cases h
    | cons a s ih =>
      rintro (_ | ⟨b, t⟩) h
      · cases h
      · change (a :: s).flatMap _ = (b :: t).flatMap _ at h
        simp only [List.flatMap_cons, List.cons_append, List.nil_append, List.cons.injEq] at h
        obtain ⟨hhigh, hlow, hrest⟩ := h
        have ha := a.toNat_lt
        have hb := b.toNat_lt
        have hhigh := hhex _ (by omega) _ (by omega) hhigh
        have hlow := hhex _ (by omega) _ (by omega) hlow
        have hsame : a = b := UInt8.toNat_inj.mp (by omega)
        rw [hsame, ih hrest]

def samplePackager : ArtifactPackager where
  secretKey := text "secret"

/-- A directory with one file. -/
def lone (name : Str) (raw : Bytes) (h : IsText name) : Tree where
  files := [⟨name, raw, raw⟩]
  distinct := List.nodup_singleton _
  texts := by simpa using h

def sampleTree : Tree :=
  lone (text "a.txt") [104, 105] (by decide)

theorem isDate_noon : IsDate 2026 1 2 := by
  decide

theorem time_noon : 12 < 24 ∧ 0 < 60 ∧ 0 < 60 ∧ 0 < 1000000 := by
  decide

def noon : DateTime :=
  ⟨2026, 1, 2, 12, 0, 0, 0, isDate_noon, time_noon⟩

def afternoon : DateTime :=
  ⟨2026, 1, 2, 12, 5, 1, 0, isDate_noon, by decide⟩

def packed (tree : Tree) : Archive :=
  samplePackager.archive tree (manifest tree (text "P26") [] noon) noon

theorem pack_sample :
  samplePackager.pack sampleTree [] (text "P26") none noon noon =
    .ok (packed sampleTree, ⟨[], text "P26", 1,
      (samplePackager.signer.sign (.obj (manifest sampleTree (text "P26") [] noon)) noon).signature⟩)
  := by
  rw [ArtifactPackager.pack, if_neg (by decide)]
  dsimp only
  rw [if_neg (by decide)]
  rfl

/-- The package of a small directory is verified at once, and its members are the files of the directory. -/
theorem sealed_iff_sample :
  samplePackager.verify [] (.archive (packed sampleTree)) none noon = ⟨true, .str (text "P26"), 1, []⟩ ∧
    (others (packed sampleTree)).Perm (sampleTree.files.map fun f => (f.rel, f.content))
  := by
  obtain ⟨hverified, -, hmembers⟩ := sealed_iff faithful_plain
  have hitem : PlainText (text "P26") := by decide
  have hvalid := (hverified samplePackager sampleTree [] (text "P26") none noon noon (packed sampleTree) _ []
    none noon hitem ⟨rfl, trivial⟩ pack_sample (.inl rfl) le_rfl).mpr
    ⟨by decide, by
      intro f hfile
      cases List.mem_singleton.mp hfile
      exact ⟨by decide, by decide, fun _ => rfl⟩⟩
  refine ⟨hvalid, (hmembers samplePackager sampleTree [] (text "P26") none noon noon (packed sampleTree) _
    (packed sampleTree) [] none noon hitem ⟨rfl, trivial⟩ pack_sample rfl
    (congrArg VerificationReport.isValid hvalid)).mpr ?_⟩
  exact ⟨by decide +kernel, by decide +kernel, by decide +kernel⟩

/-- A package is refused after five minutes, or at once with a file named like the manifest; with a member that is not
listed, or one before another of its name, it is valid. -/
theorem not_sealed :
  samplePackager.pack sampleTree [] (text "P26") none noon noon =
      .ok (packed sampleTree, ⟨[], text "P26", 1,
        (samplePackager.signer.sign (.obj (manifest sampleTree (text "P26") [] noon)) noon).signature⟩) ∧
    (samplePackager.verify [] (.archive (packed sampleTree)) none afternoon).isValid = false ∧
    (samplePackager.verify [] (.archive (packed (lone manifestName [123, 125] (by decide)))) none noon).isValid =
      false ∧
    (samplePackager.verify [] (.archive ((text "run.sh", [35, 33]) :: packed sampleTree)) none noon).isValid =
      true ∧
    (samplePackager.verify [] (.archive ((text "a.txt", [35, 33]) :: packed sampleTree)) none noon).isValid =
      true
  := ⟨pack_sample, by decide +kernel, by decide +kernel, by decide +kernel, by decide +kernel⟩

end Courier.Packager
