import Sars.StunRoundTrip
import Sars.PublishRaces
import Sars.Registration
import Sars.Rejections
import Sars.CallbackSafety
import Sars.FanOut
import Sars.StreamTable
import Sars.RequestAnswers
import Sars.BufferOwnership
import Sars.StunBuffer
import Sars.StunTermination
import Sars.StunAuthentication
import Sars.StunReplies
import Sars.StunFingerprint
import Sars.StunAddress
import Sars.StunRepeatable
import Sars.SdpUfrag
import Sars.MediaStats
import Sars.PayloadTypes
import Sars.RoomRefinement
import Sars.Survival
import Sars.ReturnAddress
import Sars.TimerRounds
import Sars.RequestLives
import Sars.StunNormalForm
import Sars.ServeHttp
import Sars.StatsText
import Sars.Timestamps
import Sars.Handshake
import Sars.RandomNumbers
import Sars.StunForgery
import Sars.DatagramOrder
import Sars.TableHistory
import Sars.UnreadDigests
