import Shim.AttrRanges
import Shim.Console
import Shim.DirFilter
import Shim.ErrLog
import Shim.Fallback.BootCsv
import Shim.Fallback.BootOrder
import Shim.HttpBoot
import Shim.Ip6
import Shim.LoadOptionFormat
import Shim.LoadOptionSplit
import Shim.LoadedContent
import Shim.Loader.CacheHistory
import Shim.Loader.TrustChain
import Shim.Mok.Attributes
import Shim.Mok.Challenge
import Shim.Mok.ConfigTable
import Shim.Mok.CreateEsl
import Shim.Mok.EnrollFile
import Shim.Mok.FullData
import Shim.Mok.KeyReads
import Shim.Mok.MirrorWords
import Shim.Mok.NodeArray
import Shim.Mok.RequestBuffers
import Shim.Mok.SecondPass
import Shim.Mok.ShaCrypt
import Shim.Mok.WriteBack
import Shim.Mok.X509Info
import Shim.Netboot
import Shim.NextUri
import Shim.OurPath
import Shim.Pe.HashTrace
import Shim.Pe.SectionVma
import Shim.Pe.Signing
import Shim.PostProcess
import Shim.RelocateFields
import Shim.Revocations
import Shim.Sbat.Sync
import Shim.Sbat.Table
import Shim.Sbat.VarPayload
import Shim.TpmMeasure
import Shim.UnbundledTrust
import Shim.UserCerts
