import Purple.FetchUrlFragments
import Purple.XmlNodeCalls
import Purple.XmlStable
import Purple.PresenceExclusive
import Purple.SignalsCount
import Purple.SignalsEmit
import Purple.FtAccounting
import Purple.FtSending
import Purple.PrefsRoundTrip
import Purple.PrivacyRuns
import Purple.BlistNodes
import Purple.MimeRoundTrip
import Purple.Oscar.FlapRuns
import Purple.Oscar.SnacQueueRuns
import Purple.Oscar.FeedbagSyncRuns
import Purple.Msn.FormatTags
import Purple.Msn.ImportHtmlReads
import Purple.Msn.HttpconnReads
import Purple.Msn.MultipartRuns
import Purple.Msn.P2pBounds
import Purple.Msn.P2pRoundTrip
import Purple.Msn.SlpSend
import Purple.Jabber.ScramTokens
import Purple.Jabber.DigestMd5RoundTrip
import Purple.Jabber.IbbLink
import Purple.Jabber.CapsHashNeeded
import Purple.Jabber.CapsCompletion
import Purple.Irc.InputCuts
import Purple.Irc.MircText
import Purple.Irc.Output
import Purple.Proxy.Socks5Handshake
import Purple.Proxy.ConnectWrites
import Purple.Proxy.HttpReplyReads
import Purple.Yahoo.PacketsSent
import Purple.Myspace.InputMarkers
import Purple.Myspace.MessageRoundTrip
import Purple.SavedStatusesRuns
import Purple.PresenceCompare
import Purple.Oscar.Encoding
import Purple.MimeBounds
import Purple.Msn.Msg
import Purple.StrToTimeRender
import Purple.MarkupEscape
import Purple.StripHtml
import Purple.Cmds
import Purple.PrefsCallbacksRuns
import Purple.Mxit.QueueRuns
import Purple.Simple.SipCodec
import Purple.Simple.Input
import Purple.Oscar.FeedbagCleanRuns
import Purple.Msn.Chl
import Purple.Ciphers.HmacRuns
import Purple.Ciphers.Rc4
import Purple.Novell.FieldsSent
import Purple.Ntlm
import Purple.Mxit.ChunkSafety
import Purple.WriteFile
import Purple.StrCaseReplace
import Purple.Utf8Salvage
import Purple.UriList
import Purple.EmailIsValid
import Purple.NcrDecode
