import Cx.Quic.Transfer
import Cx.Quic.StreamCount
import Cx.Quic.KeyAgreement
import Cx.Quic.StreamWake
import Cx.Quic.StreamLink
import Cx.Thread.RwLockSafety
import Cx.Quic.ConnEnd
import Cx.Quic.ConnIds
import Cx.Quic.ConnAmplify
import Cx.Quic.ConnDatagram
import Cx.Quic.ConnEcn
import Cx.Thread.Mutex
import Cx.Thread.CondVar
import Cx.Thread.Event
import Cx.Fs.PathCanonical
import Cx.Str.EncodingFlags
import Cx.Net.RecvMsgs
import Cx.Json.Text
import Cx.Ser.Members
import Cx.Http.H3Frames
import Cx.Quic.ReasmRun
import Cx.Quic.StreamStop
import Cx.Suid
import Cx.Quic.RecoveryRate
import Cx.Container.HashTable
import Cx.Str.RopeBalance
import Cx.Container.ArrayGrow
import Cx.Http.Url
