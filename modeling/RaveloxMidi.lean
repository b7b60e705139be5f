import RaveloxMidi.Transducer
import RaveloxMidi.KeyedTable
import RaveloxMidi.ByteMemory
import RaveloxMidi.CText
import RaveloxMidi.PrintedNumber
import RaveloxMidi.SaturatingScan
import RaveloxMidi.JsonText
import RaveloxMidi.RingBuffer
import RaveloxMidi.RingPartial
import RaveloxMidi.RingQueue
import RaveloxMidi.Dbuffer
import RaveloxMidi.HoldBuffer
import RaveloxMidi.Dstring
import RaveloxMidi.MidiCommand
import RaveloxMidi.MidiState
import RaveloxMidi.MidiParser
import RaveloxMidi.MidiFraming
import RaveloxMidi.MidiList
import RaveloxMidi.MidiSimple
import RaveloxMidi.ParserReset
import RaveloxMidi.DeltaTimes
import RaveloxMidi.SystemCommon
import RaveloxMidi.SegmentedSysex
import RaveloxMidi.MidiPayload
import RaveloxMidi.JournalChapters
import RaveloxMidi.MidiJournal
import RaveloxMidi.JournalHistory
import RaveloxMidi.InviteAnswer
import RaveloxMidi.JournalChannels
import RaveloxMidi.ChannelOrder
import RaveloxMidi.JournalReset
import RaveloxMidi.JournalContents
import RaveloxMidi.RtpPacket
import RaveloxMidi.RtpCodec
import RaveloxMidi.NetApplemidi
import RaveloxMidi.NetConnection
import RaveloxMidi.ApplemidiResponders
import RaveloxMidi.NetSocket
import RaveloxMidi.NetChange
import RaveloxMidi.MidiSender
import RaveloxMidi.SenderWriter
import RaveloxMidi.MidiPipeline
import RaveloxMidi.JournalFeedback
import RaveloxMidi.FeedbackAgreement
import RaveloxMidi.FanOut
import RaveloxMidi.RemoteConnection
import RaveloxMidi.SessionStart
import RaveloxMidi.JournalRace
import RaveloxMidi.BothInvitations
import RaveloxMidi.Handshake
import RaveloxMidi.ApplemidiRoundTrip
import RaveloxMidi.OffBits
import RaveloxMidi.NameLookup
import RaveloxMidi.ConnectionList
import RaveloxMidi.ListingJson
import RaveloxMidi.NoteLogs
import RaveloxMidi.JournalLengths
import RaveloxMidi.ControllerLogs
import RaveloxMidi.OddPeriod
import RaveloxMidi.ChapterCUnpack
import RaveloxMidi.AlsaDevice
import RaveloxMidi.SocketRead
import RaveloxMidi.LocalPort
import RaveloxMidi.ReadCapacity
import RaveloxMidi.AlsaWriteback
import RaveloxMidi.AlsaListener
import RaveloxMidi.PollTable
import RaveloxMidi.MainLoop
import RaveloxMidi.LoopShutdown
import RaveloxMidi.ConfigFile
import RaveloxMidi.ConfigMeaning
import RaveloxMidi.ConfigOptions
import RaveloxMidi.RemoteAddress
import RaveloxMidi.SlotTable
import RaveloxMidi.ConnectionSlots
import RaveloxMidi.SsrcUnique
import RaveloxMidi.DataTable
import RaveloxMidi.SlotReuse
import RaveloxMidi.CommandBounds
import RaveloxMidi.ConnectionLimit
import RaveloxMidi.LinkedHeap
import RaveloxMidi.DataQueue
import RaveloxMidi.QueueFifo
import RaveloxMidi.QueueStop
import RaveloxMidi.DataContext
import RaveloxMidi.ContextCount
import RaveloxMidi.ContextReader
import RaveloxMidi.ContextRelease
import RaveloxMidi.ReadContext
import RaveloxMidi.ReceiveChain
import RaveloxMidi.SessionPackets
import RaveloxMidi.SessionLink
import RaveloxMidi.StreamDelivery
import RaveloxMidi.Relaying
import RaveloxMidi.RelayMesh
import RaveloxMidi.JournalSession
import RaveloxMidi.SyncThread
import RaveloxMidi.ClockSync
import RaveloxMidi.SessionEnd
import RaveloxMidi.EndingProgress
import RaveloxMidi.SessionSetup
