import Virtualization.Lib.Outcome
import Virtualization.Lib.Chunks
import Virtualization.Lib.Bytes
import Virtualization.Lib.Io
import Virtualization.Lib.MerkleTree
import Virtualization.Lib.Sorted
import Virtualization.AuthFs.Common
import Virtualization.AuthFs.File
import Virtualization.AuthFs.Fsverity.Common
import Virtualization.AuthFs.Fsverity.Spec
import Virtualization.AuthFs.Fsverity.Builder
import Virtualization.AuthFs.Fsverity.Verifier
import Virtualization.AuthFs.FuseFs.Read
import Virtualization.AuthFs.Fsverity.Completeness
import Virtualization.AuthFs.Fsverity.Soundness
import Virtualization.AuthFs.Fsverity.Editor
import Virtualization.AuthFs.File.Dir
import Virtualization.AuthFs.FuseFs.Inode
import Virtualization.AuthFs.FuseFs.Unlink
import Virtualization.Apkverify.BytesExt
import Virtualization.Apkverify.Sigutil
import Virtualization.Apkverify.V3
import Virtualization.ZipFuse.Inode
import Virtualization.VirtualizationService.Payload
import Virtualization.MicrodroidManager.Main
import Virtualization.Lib.BlockDevice
import Virtualization.MicrodroidManager.Instance
import Virtualization.Composd.InstanceManager
import Virtualization.Idsig.HashTree
import Virtualization.Idsig.Layout
import Virtualization.Idsig.Generate
import Virtualization.Idsig.Fsverity
import Virtualization.Idsig.Content
import Virtualization.Lib.Cursor
import Virtualization.Idsig.Apksigv4
import Virtualization.Apkverify.Digest
import Virtualization.ZipFuse.Main
import Virtualization.ZipFuse.Serve
import Virtualization.AuthFs.Fsverity.Metadata
import Virtualization.FdServer.Aidl
import Virtualization.Idsig.Create
import Virtualization.VirtualizationService.Aidl
import Virtualization.AuthFs.FuseFs.AddEntry
import Virtualization.AuthFs.FuseFs.Setattr
import Virtualization.Lib.Transition
import Virtualization.VirtualizationService.PayloadState
import Virtualization.VirtualizationService.ApexInfo
import Virtualization.AuthFs.Fsverity.EditorRefinement
import Virtualization.AuthFs.File.Remote
